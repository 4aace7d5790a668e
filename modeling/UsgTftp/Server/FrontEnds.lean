import UsgTftp.Server.LibraryPool
import UsgTftp.Upload.Netascii

set_option autoImplicit false

/-! # The two front ends

`handle_client` and the worker pool parse a request and negotiate its options with code of their
own. Both read the client's requests as they were meant (`request_round_trip`).
`negotiate_alike_iff` says for which requests they negotiate the same: the worker has no limit on
strings and rules of its own for `tsize`.
-/

namespace UsgTftp

open Posix

/-! ## The requests of the client -/

/-- The opcode of a datagram, and what the parser of the entry point makes of the rest. -/
def EntryPoint.readRequest (entry : EntryPoint) (data : Bytes) : Option (Opcode × Request) :=
  (getU16 data).bind fun (value, bytes) =>
    (Opcode.fromU16 value).bind fun opcode =>
      match parseRequestPacket entry.parser bytes with
      | .error _ => none
      | .ok request => some (opcode, request)

theorem EntryPoint.readsShort (entry : EntryPoint) : ReadsShort entry.parser := by
  cases entry with
  | handleClient => exact readsShort_parseString
  | processTftpPacket => exact readsShort_parseNullTerminatedString

theorem EntryPoint.readRequest_eq {entry : EntryPoint} {opcode : Opcode} {bytes : Bytes}
    {request : Request} (h : parseRequestPacket entry.parser bytes = .ok request) :
    entry.readRequest (putU16 opcode.toU16 ++ bytes) = some (opcode, request) := by
  rw [EntryPoint.readRequest, getU16_putU16, Option.bind_some]
  dsimp only
  rw [Opcode.fromU16_toU16, Option.bind_some, h]

/-- The options that the client names, with their numbers. -/
def TftpClient.optionNumber (c : TftpClient) (tsize : Option Nat) (name : String) : Option Nat :=
  if name = "blksize" then if c.blockSize ≠ 512 then some c.blockSize else none
  else if name = "windowsize" then if c.windowsize > 1 then some c.windowsize else none
  else if name = "tsize" then tsize
  else none

/-- The request is that for this file in this mode, and has these options and no others. -/
structure Recovers (request : Request) (filename : String) (mode : TransferMode)
    (number : String → Option Nat) : Prop where
  filename : request.filename = filename
  modeStr : request.modeStr = mode.modeStr
  mode : TransferMode.fromStr request.modeStr = .ok mode
  options : ∀ name, request.options.lookup name = (number name).map Nat.repr
  numbers : ∀ name, (request.options.lookup name).bind parseUnsigned = number name

section RoundTrip

variable {c : TftpClient}

theorem TftpClient.optionNumber_lt (hb : c.blockSize < 2 ^ 64) (hW : c.windowsize < 2 ^ 64)
    {tsize : Option Nat} (htsize : ∀ n, tsize = some n → n < 2 ^ 64) (name : String) (n : Nat)
    (h : c.optionNumber tsize name = some n) : n < 2 ^ 64 := by
  unfold TftpClient.optionNumber at h
  split_ifs at h
  · cases h
    exact hb
  · cases h
    exact hW
  · exact htsize n h

theorem lookup_requestedOptions_eq (c : TftpClient) (name : String) :
    c.requestedOptions.lookup name = (c.optionNumber none name).map Nat.repr := by
  unfold TftpClient.optionNumber
  split_ifs with hblk hsize hwin hwindow htsize
  · rw [hblk, (lookup_requestedOptions c).1]
    exact if_pos hsize
  · rw [hblk, (lookup_requestedOptions c).1]
    exact if_neg hsize
  · rw [hwin, (lookup_requestedOptions c).2.1]
    exact if_pos hwindow
  · rw [hwin, (lookup_requestedOptions c).2.1]
    exact if_neg hwindow
  all_goals
    -- no other name is inserted
    unfold TftpClient.requestedOptions TftpClient.optionEntries
    split_ifs <;>
      simp [toLowercase_blksize, toLowercase_windowsize, AList.lookup_insert_ne hblk,
        AList.lookup_insert_ne hwin, -AList.insert_empty]

theorem recovers_of_lookup {filename : String} {options : OptionMap} {number : String → Option Nat}
    (mode : TransferMode) (hnumber : ∀ name n, number name = some n → n < 2 ^ 64)
    (h : ∀ name, options.lookup name = (number name).map Nat.repr) :
    Recovers ⟨filename, mode.modeStr, options⟩ filename mode number := by
  refine ⟨rfl, rfl, TransferMode.fromStr_modeStr mode, h, ?_⟩
  intro name
  show (options.lookup name).bind parseUnsigned = number name
  rw [h name]
  cases hn : number name with
  | none => rfl
  | some n => exact parseUnsigned_repr (hnumber name n hn)

end RoundTrip

/-- **Requests are read as they were written**, by both parsers: the opcode, the file name, the
mode and exactly the options that the client names. -/
theorem request_round_trip (c : TftpClient) {remoteFile : String} {fileSize : Nat}
    (hnul : 0 ∉ asBytes remoteFile) (hlen : (asBytes remoteFile).length ≤ 254)
    (hb : c.blockSize < 2 ^ 64) (hW : c.windowsize < 2 ^ 64) (hn : fileSize < 2 ^ 64)
    (entry : EntryPoint) :
    (∃ request, entry.readRequest (c.rrqPacket remoteFile) = some (.rrq, request) ∧
      Recovers request remoteFile c.mode (c.optionNumber none)) ∧
    (∃ request, entry.readRequest (c.wrqPacket remoteFile fileSize) = some (.wrq, request) ∧
      Recovers request remoteFile c.mode (c.optionNumber (some fileSize))) := by
  constructor
  · have hreq := @parseRequestPacket_rrqPacket c _ entry.readsShort remoteFile hb hW hnul hlen
    refine ⟨_, entry.readRequest_eq hreq, recovers_of_lookup c.mode ?_ ?_⟩
    · exact TftpClient.optionNumber_lt hb hW (by simp)
    · exact lookup_requestedOptions_eq c
  · have hreq := @parseRequestPacket_wrqPacket c _ entry.readsShort remoteFile fileSize hb hW hn
      hnul hlen
    refine ⟨_, entry.readRequest_eq hreq, recovers_of_lookup c.mode ?_ ?_⟩
    · refine TftpClient.optionNumber_lt hb hW ?_
      rintro n h
      cases h
      exact hn
    · intro name
      by_cases hname : name = "tsize"
      · rw [hname, AList.lookup_insert]
        rfl
      · rw [AList.lookup_insert_ne hname, lookup_requestedOptions_eq]
        simp only [TftpClient.optionNumber, if_neg hname]

/-- A file that is called like an option. -/
theorem request_round_trip_blksize :
    let c : TftpClient := ⟨⟨.v4 0x7F000001, 69⟩, .octet, 1024, 4⟩
    0 ∉ asBytes "blksize" ∧ ∀ entry : EntryPoint,
      (∃ request, entry.readRequest (c.rrqPacket "blksize") = some (.rrq, request) ∧
        Recovers request "blksize" c.mode (c.optionNumber none)) ∧
      (∃ request, entry.readRequest (c.wrqPacket "blksize" 7) = some (.wrq, request) ∧
        Recovers request "blksize" c.mode (c.optionNumber (some 7))) := by
  intro c
  have hnul : 0 ∉ asBytes "blksize" := by decide
  exact ⟨hnul, fun entry => request_round_trip c hnul (by decide) (by decide) (by decide)
    (by decide) entry⟩

/-! ## What a front end hands on -/

/-- The file name, the mode, the options of the transfer and the OACK map. -/
structure Negotiated where
  filename : String
  mode : TransferMode
  options : TftpOptions
  negotiatedOptions : OptionMap

/-- The two are the same; the maps are compared entry by entry. -/
structure Negotiated.Same (n n' : Negotiated) : Prop where
  filename : n.filename = n'.filename
  mode : n.mode = n'.mode
  options : n.options = n'.options
  lookup : ∀ name, n.negotiatedOptions.lookup name = n'.negotiatedOptions.lookup name

def EntryPoint.tsizeRule : EntryPoint → RequestKind → Negotiation → String → Negotiation
  | .handleClient, kind => kind.tsizeRule
  | .processTftpPacket, .rrq => tsizeRrqWorker
  | .processTftpPacket, .wrq => tsizeWrqWorker

theorem EntryPoint.onlyTsize (entry : EntryPoint) (kind : RequestKind) :
    OnlyTsize (entry.tsizeRule kind) := by
  cases entry with
  | handleClient => exact kind.onlyTsize
  | processTftpPacket =>
      cases kind with
      | rrq => exact onlyTsize_rrqWorker
      | wrq => exact onlyTsize_wrqWorker

/-- A handler from the parser to the end of the negotiation; `none` if it refuses the request on
the way. -/
def EntryPoint.negotiates (entry : EntryPoint) (kind : RequestKind) (defaultWindowsize : Nat)
    (order : IterOrder) (body : Bytes) : Option Negotiated :=
  match parseRequestPacket entry.parser body with
  | .error _ => none
  | .ok request =>
      match workerMode request.modeStr with
      | .error _ => none
      | .ok mode =>
          let negotiation :=
            negotiate (entry.tsizeRule kind) defaultWindowsize order request.options
          some ⟨request.filename, mode, negotiation.options, negotiation.negotiated⟩

section Handlers

variable {entry : EntryPoint} {kind : RequestKind} {w : Nat} {order : IterOrder} {body : Bytes}
  {n : Negotiated}

theorem EntryPoint.negotiates_eq_some :
    entry.negotiates kind w order body = some n ↔
    ∃ request, parseRequestPacket entry.parser body = .ok request ∧
      TransferMode.fromStr request.modeStr = .ok n.mode ∧ n.mode ≠ .mail ∧
      n.filename = request.filename ∧
      n.options = (negotiate (entry.tsizeRule kind) w order request.options).options ∧
      n.negotiatedOptions
        = (negotiate (entry.tsizeRule kind) w order request.options).negotiated := by
  unfold EntryPoint.negotiates
  cases parseRequestPacket entry.parser body with
  | error e => simp
  | ok request =>
      dsimp only
      cases hmode : workerMode request.modeStr with
      | error e =>
          constructor
          · intro h
            cases h
          · rintro ⟨request', hrequest, hfrom, hmail, -⟩
            cases hrequest
            rw [workerMode_eq_ok.mpr ⟨hfrom, hmail⟩] at hmode
            cases hmode
      | ok mode =>
          obtain ⟨hfrom, hmail⟩ := workerMode_eq_ok.mp hmode
          constructor
          · intro h
            cases h
            exact ⟨request, rfl, hfrom, hmail, rfl, rfl, rfl⟩
          · rintro ⟨request', hrequest, hfrom', -, hname, hoptions, hmap⟩
            cases hrequest
            obtain rfl : mode = n.mode := Except.ok.inj (hfrom.symm.trans hfrom')
            dsimp only
            rw [← hname, ← hoptions, ← hmap]

variable {env : Env} {t : Tree} {glob : Glob} {config : ServerConfig} {p : Path}

/-- The reads of `handle_client` are those that are handed on, if they do not ask for multicast
and the path is accepted. -/
theorem handleClientRrq_negotiates {mode : TransferMode} {options : TftpOptions}
    {negotiated : OptionMap} :
    handleClientRrq env t config order body = .ok (.read p mode options negotiated) ↔
    ∃ filename, EntryPoint.handleClient.negotiates .rrq config.defaultWindowsize order body
        = some ⟨filename, mode, options, negotiated⟩ ∧
      (∀ request, parseRequestPacket parseString body = .ok request →
        "multicast" ∉ request.options) ∧
      validateAndResolvePath env t config.rootDir filename = .ok p := by
  rw [handleClientRrq_read_iff]
  constructor
  · rintro ⟨request, hreq, hmulti, h⟩
    refine ⟨request.filename, EntryPoint.negotiates_eq_some.mpr ⟨request, hreq, h.mode_eq,
      h.notMail, rfl, h.options_eq, h.negotiated_eq⟩, ?_, h.path⟩
    intro request' hreq'
    rw [hreq] at hreq'
    cases hreq'
    exact hmulti
  · rintro ⟨filename, h, hmulti, hpath⟩
    obtain ⟨request, hreq, hmode, hmail, rfl, hoptions, hmap⟩ :=
      EntryPoint.negotiates_eq_some.mp h
    exact ⟨request, hreq, hmulti request hreq, hmode, hmail, hpath, hoptions, hmap⟩

theorem handleReadRequestWorker_negotiates {mode : TransferMode} {options : TftpOptions}
    {negotiated : OptionMap} :
    handleReadRequestWorker env t config order body = .ok (.read p mode options negotiated) ↔
    ∃ filename, EntryPoint.processTftpPacket.negotiates .rrq config.defaultWindowsize order body
        = some ⟨filename, mode, options, negotiated⟩ ∧
      validateAndResolvePath env t config.rootDir filename = .ok p := by
  rw [handleReadRequestWorker_read_iff]
  constructor
  · rintro ⟨request, hreq, h⟩
    exact ⟨request.filename, EntryPoint.negotiates_eq_some.mpr ⟨request, hreq, h.mode_eq,
      h.notMail, rfl, h.options_eq, h.negotiated_eq⟩, h.path⟩
  · rintro ⟨filename, h, hpath⟩
    obtain ⟨request, hreq, hmode, hmail, rfl, hoptions, hmap⟩ :=
      EntryPoint.negotiates_eq_some.mp h
    exact ⟨request, hreq, hmode, hmail, hpath, hoptions, hmap⟩

/-- The checks behind the negotiation of a write. -/
structure WriteAdmitted (env : Env) (t : Tree) (config : ServerConfig) (filename : String)
    (p : Path) : Prop where
  enabled : config.writeConfig.enabled = true
  path : validateAndResolvePath env t config.rootDir filename = .ok p
  overwrite : pathExists env t p = false ∨ config.writeConfig.allowOverwrite = true

/-- The write that is started with what was negotiated. -/
def Negotiated.writeRequest (n : Negotiated) (config : ServerConfig) : WriteRequest :=
  ⟨n.mode, n.options, n.negotiatedOptions, config.maxFileSizeBytes⟩

theorem handleClientWrq_negotiates {q : WriteRequest} {created : Bool} :
    handleClientWrq env t glob config order body = .ok (.write p q created) ↔
    ∃ n, EntryPoint.handleClient.negotiates .wrq config.defaultWindowsize order body = some n ∧
      WriteAdmitted env t config n.filename p ∧
      isWriteAllowed glob p config.rootDir config.writeConfig = true ∧
      q = n.writeRequest config ∧ created = !pathExists env t p := by
  rw [handleClientWrq_write_iff]
  constructor
  · rintro ⟨request, mode, hreq, hc, hallowed, rfl, rfl⟩
    refine ⟨⟨request.filename, mode, _, _⟩, EntryPoint.negotiates_eq_some.mpr ⟨request, hreq,
      hc.mode_eq, hc.notMail, rfl, rfl, rfl⟩, ⟨hc.enabled, hc.path, hc.overwrite⟩, hallowed,
      rfl, rfl⟩
  · rintro ⟨⟨filename, mode, options, negotiated⟩, h, hadmitted, hallowed, rfl, rfl⟩
    obtain ⟨request, hreq, hmode, hmail, rfl, rfl, rfl⟩ := EntryPoint.negotiates_eq_some.mp h
    exact ⟨request, mode, hreq, ⟨hadmitted.enabled, hmode, hmail, hadmitted.path,
      hadmitted.overwrite⟩, hallowed, rfl, rfl⟩

theorem handleWriteRequestWorker_negotiates {q : WriteRequest} {created : Bool} :
    handleWriteRequestWorker env t config order body = .ok (.write p q created) ↔
    ∃ n, EntryPoint.processTftpPacket.negotiates .wrq config.defaultWindowsize order body = some n ∧
      WriteAdmitted env t config n.filename p ∧
      q = n.writeRequest config ∧ created = !pathExists env t p := by
  rw [handleWriteRequestWorker_write_iff]
  constructor
  · rintro ⟨request, mode, hreq, hc, rfl, rfl⟩
    refine ⟨⟨request.filename, mode, _, _⟩, EntryPoint.negotiates_eq_some.mpr ⟨request, hreq,
      hc.mode_eq, hc.notMail, rfl, rfl, rfl⟩, ⟨hc.enabled, hc.path, hc.overwrite⟩, rfl, rfl⟩
  · rintro ⟨⟨filename, mode, options, negotiated⟩, h, hadmitted, rfl, rfl⟩
    obtain ⟨request, hreq, hmode, hmail, rfl, rfl, rfl⟩ := EntryPoint.negotiates_eq_some.mp h
    exact ⟨request, mode, hreq, ⟨hadmitted.enabled, hmode, hmail, hadmitted.path,
      hadmitted.overwrite⟩, rfl, rfl⟩

end Handlers

/-! ## Two negotiations -/

/-- The options whose value is a number in a range, with the range. -/
def rangedOptions : List (String × Nat × Nat) :=
  [("blksize", 8, maxBlockSize), ("timeout", 1, 255), ("windowsize", 1, 65535)]

theorem repr_injective : Function.Injective Nat.repr := by
  intro m n h
  have hdigits : Nat.toDigits 10 m = Nat.toDigits 10 n := by
    rw [← Nat.toList_repr, ← Nat.toList_repr, h]
  calc m = Nat.ofDigitChars 10 (Nat.toDigits 10 m) 0 :=
        (Nat.ofDigitChars_toDigits (by omega) (by omega)).symm
    _ = Nat.ofDigitChars 10 (Nat.toDigits 10 n) 0 := by rw [hdigits]
    _ = n := Nat.ofDigitChars_toDigits (by omega) (by omega)

section Negotiations

variable {tsize tsize' : Negotiation → String → Negotiation}

theorem negotiate_lookup_ranged (htsize : OnlyTsize tsize) (w : Nat) (order : IterOrder)
    (requested : OptionMap) {o : String × Nat × Nat} (ho : o ∈ rangedOptions) :
    (negotiate tsize w order requested).negotiated.lookup o.1
      = ((requested.lookup o.1).bind (parseInRange o.2.1 o.2.2)).map Nat.repr := by
  rw [Option.map_bind]
  simp only [rangedOptions, List.mem_cons, List.not_mem_nil, or_false] at ho
  rcases ho with rfl | rfl | rfl
  · exact negotiate_lookup_blksize htsize w order requested
  · exact negotiate_lookup_timeout htsize w order requested
  · exact negotiate_lookup_windowsize htsize w order requested

/-- **When two negotiations agree**: they read the same numbers, and their rules for `tsize` come
to the same. -/
theorem negotiate_eq_iff (htsize : OnlyTsize tsize) (htsize' : OnlyTsize tsize') (w : Nat)
    (order order' : IterOrder) (m m' : OptionMap) :
    ((negotiate tsize w order m).options = (negotiate tsize' w order' m').options ∧
      ∀ name, (negotiate tsize w order m).negotiated.lookup name
        = (negotiate tsize' w order' m').negotiated.lookup name) ↔
    (∀ o ∈ rangedOptions, (m.lookup o.1).bind (parseInRange o.2.1 o.2.2)
      = (m'.lookup o.1).bind (parseInRange o.2.1 o.2.2)) ∧
    (negotiate tsize w order m).options.transferSize
      = (negotiate tsize' w order' m').options.transferSize ∧
    (negotiate tsize w order m).negotiated.lookup "tsize"
      = (negotiate tsize' w order' m').negotiated.lookup "tsize" := by
  constructor
  · rintro ⟨hoptions, hlookup⟩
    refine ⟨?_, by rw [hoptions], hlookup "tsize"⟩
    intro o ho
    have h := hlookup o.1
    rw [negotiate_lookup_ranged htsize w order m ho,
      negotiate_lookup_ranged htsize' w order' m' ho] at h
    exact Option.map_injective repr_injective h
  · rintro ⟨hranged, hsize, htransfer⟩
    have hblk := hranged ("blksize", 8, maxBlockSize) (by simp [rangedOptions])
    have htime := hranged ("timeout", 1, 255) (by simp [rangedOptions])
    have hwin := hranged ("windowsize", 1, 65535) (by simp [rangedOptions])
    constructor
    · -- the fields of the options, one by one
      have hblockSize := (negotiate_blockSize htsize.blockSize w order m).trans
        ((congrArg (Option.getD · defaultBlockSize) hblk).trans
          (negotiate_blockSize htsize'.blockSize w order' m').symm)
      have htimeout := (negotiate_timeout htsize w order m).trans
        ((congrArg (Option.getD · defaultTimeoutSecs) htime).trans
          (negotiate_timeout htsize' w order' m').symm)
      have hwindowsize := (negotiate_windowsize htsize.windowsize w order m).trans
        ((congrArg (Option.getD · w) hwin).trans
          (negotiate_windowsize htsize'.windowsize w order' m').symm)
      generalize (negotiate tsize w order m).options = a at *
      generalize (negotiate tsize' w order' m').options = b at *
      cases a
      cases b
      simp only at hblockSize htimeout hwindowsize hsize
      rw [hblockSize, htimeout, hwindowsize, hsize]
    · intro name
      by_cases hts : name = "tsize"
      · rw [hts]
        exact htransfer
      by_cases hname : ∃ o ∈ rangedOptions, o.1 = name
      · obtain ⟨o, ho, rfl⟩ := hname
        rw [negotiate_lookup_ranged htsize w order m ho,
          negotiate_lookup_ranged htsize' w order' m' ho, hranged o ho]
      · have hunknown : name ∉ ["blksize", "timeout", "tsize", "windowsize"] := by
          simp only [rangedOptions, List.mem_cons, List.not_mem_nil, or_false,
            exists_eq_or_imp, exists_eq_left, not_or] at hname
          simp only [List.mem_cons, List.not_mem_nil, or_false, not_or]
          exact ⟨Ne.symm hname.1, Ne.symm hname.2.1, hts, Ne.symm hname.2.2⟩
        rw [negotiate_lookup_unknown htsize hunknown w order m,
          negotiate_lookup_unknown htsize' hunknown w order' m']

end Negotiations

/-! ## The limit on strings -/

/-- The pairs before the first one with a string that `parse_string` takes for too long. -/
def shortPairs (pairs : List (String × String)) : List (String × String) :=
  pairs.takeWhile fun o => (asBytes o.1).length ≤ 254 ∧ (asBytes o.2).length ≤ 254

theorem parseRequestPacket_eq_ok {parse : StringParser} {body : Bytes} {request : Request} :
    parseRequestPacket parse body = .ok request ↔
    ∃ name mode pairs, requestSequence parse body = .ok (name, mode, pairs) ∧
      request = ⟨name, mode, insertPairs ∅ pairs⟩ := by
  rw [parseRequestPacket_eq_requestSequence]
  cases requestSequence parse body with
  | error e => simp [Except.map]
  | ok r =>
      constructor
      · intro h
        cases h
        exact ⟨r.1, r.2.1, r.2.2, rfl, rfl⟩
      · rintro ⟨name, mode, pairs, h, rfl⟩
        cases h
        rfl

/-- **What the server makes of a request** that stands on the wire: it stops at a long string. -/
theorem requestSequence_parseString_iff {body : Bytes} {name mode : String}
    {read : List (String × String)} :
    requestSequence parseString body = .ok (name, mode, read) ↔
    ∃ pairs, requestSequence parseNullTerminatedString body = .ok (name, mode, pairs) ∧
      (asBytes name).length ≤ 254 ∧ (asBytes mode).length ≤ 254 ∧ read = shortPairs pairs := by
  have hshort : ∀ bytes s rest, ParsesAs parseString bytes s rest ↔
      ParsesAs parseNullTerminatedString bytes s rest ∧ (asBytes s).length ≤ 254 :=
    fun _ _ _ => parseString_eq_ok
  simp only [requestSequence_iff consumes_parseString,
    requestSequence_iff consumes_parseNullTerminatedString]
  constructor
  · rintro ⟨afterName, rest, hname, hmode, hread⟩
    obtain ⟨hname, hnameLen⟩ := (hshort _ _ _).mp hname
    obtain ⟨hmode, hmodeLen⟩ := (hshort _ _ _).mp hmode
    have hpairs := pairSequence_optionSequence consumes_parseNullTerminatedString _ rest le_rfl
    exact ⟨_, ⟨afterName, rest, hname, hmode, hpairs⟩, hnameLen, hmodeLen,
      hread.unique (deterministic_parsesAs _) (hpairs.restrict hshort (deterministic_parsesAs _))⟩
  · rintro ⟨pairs, ⟨afterName, rest, hname, hmode, hpairs⟩, hnameLen, hmodeLen, rfl⟩
    exact ⟨afterName, rest, (hshort _ _ _).mpr ⟨hname, hnameLen⟩,
      (hshort _ _ _).mpr ⟨hmode, hmodeLen⟩,
      hpairs.restrict hshort (deterministic_parsesAs _)⟩

theorem length_asBytes_le (s : String) : (asBytes s).length ≤ 4 * s.length := by
  rw [asBytes_eq, ← String.length_toList]
  induction s.toList with
  | nil => exact Nat.zero_le _
  | cons c cs ih =>
      rw [List.flatMap_cons, List.length_append, List.length_cons, String.length_utf8EncodeChar]
      have := c.utf8Size_le_four
      omega

/-- The name of a mode is short. -/
theorem length_modeStr_le {modeStr : String} {mode : TransferMode}
    (h : TransferMode.fromStr modeStr = .ok mode) : (asBytes modeStr).length ≤ 254 := by
  have hlower : ∀ {name}, toLowercase modeStr = name → modeStr.length = name.length := by
    rintro name rfl
    rw [toLowercase, String.length_ofList, List.length_map, String.length_toList]
  have hlen := length_asBytes_le modeStr
  unfold TransferMode.fromStr at h
  split_ifs at h with h1 h2 h3
  · rw [hlower h1] at hlen
    exact le_trans hlen (by decide)
  · rw [hlower h2] at hlen
    exact le_trans hlen (by decide)
  · rw [hlower h3] at hlen
    exact le_trans hlen (by decide)

/-! ## Negotiating alike -/

theorem lookup_insertPairs_empty (pairs : List (String × String)) (name : String) :
    (insertPairs ∅ pairs).lookup name = lastValue pairs name := by
  rw [lookup_insertPairs]
  exact Option.or_none

/-- A worker does not read the value of `tsize`. -/
theorem negotiate_tsizeWorker (kind : RequestKind) (w : Nat) (order : IterOrder)
    (m : OptionMap) :
    let n := negotiate (EntryPoint.processTftpPacket.tsizeRule kind) w order m
    n.options.transferSize = none ∧
    n.negotiated.lookup "tsize"
      = (m.lookup "tsize").map fun v => match kind with
        | .rrq => "0"
        | .wrq => v := by
  intro n
  have hts := EntryPoint.processTftpPacket.onlyTsize kind
  constructor
  · have hnone : ∀ acc v,
        (EntryPoint.processTftpPacket.tsizeRule kind acc v).options.transferSize
          = (none : Option Nat).or acc.options.transferSize := by
      intro acc v
      cases kind <;> rfl
    rw [show n.options.transferSize = _ from negotiate_transferSize hnone w order m]
    cases m.lookup "tsize" <;> rfl
  · rw [Option.map_eq_bind]
    refine negotiate_lookup hts ?_ w order m
    intro acc v
    simp only [negotiateOption, String.reduceEq, if_false, if_true]
    cases kind with
    | rrq => exact AList.lookup_insert _
    | wrq => exact AList.lookup_insert _

/-- What a request has to be for the two front ends to negotiate alike: its file name is short,
a pair with a long string and the pairs behind it change none of the numbers, and `tsize` is a
number, in a read, or absent. -/
structure ReadAlike (kind : RequestKind) (name : String) (pairs : List (String × String)) :
    Prop where
  name : (asBytes name).length ≤ 254
  ranged : ∀ o ∈ rangedOptions,
    requestedValue (shortPairs pairs) o.1 (parseInRange o.2.1 o.2.2)
      = requestedValue pairs o.1 (parseInRange o.2.1 o.2.2)
  tsize : match kind with
    | .rrq => (lastValue pairs "tsize").isSome
        = (requestedValue (shortPairs pairs) "tsize" parseUnsigned).isSome
    | .wrq => lastValue pairs "tsize" = none

theorem lastValue_shortPairs_eq_none {pairs : List (String × String)} {name : String}
    (h : lastValue pairs name = none) : lastValue (shortPairs pairs) name = none := by
  simp only [lastValue, Option.map_eq_none_iff, List.getLast?_eq_none_iff,
    List.filter_eq_nil_iff] at h ⊢
  intro o ho
  exact h o (List.takeWhile_subset _ ho)

/-- The rules for `tsize` come to the same. -/
theorem tsize_alike_iff (kind : RequestKind) (pairs : List (String × String)) (w : Nat)
    (order order' : IterOrder) :
    let n := negotiate (EntryPoint.handleClient.tsizeRule kind) w order
      (insertPairs ∅ (shortPairs pairs))
    let n' := negotiate (EntryPoint.processTftpPacket.tsizeRule kind) w order'
      (insertPairs ∅ pairs)
    (n.options.transferSize = n'.options.transferSize ∧
      n.negotiated.lookup "tsize" = n'.negotiated.lookup "tsize") ↔
    match kind with
    | .rrq => (lastValue pairs "tsize").isSome
        = (requestedValue (shortPairs pairs) "tsize" parseUnsigned).isSome
    | .wrq => lastValue pairs "tsize" = none := by
  intro n n'
  have htruth := truthful_negotiate kind (shortPairs pairs) w order
  have hsize : n.options.transferSize = _ := htruth.transferSize
  have hlookup : n.negotiated.lookup "tsize" = _ := htruth.tsize
  obtain ⟨hsize', hlookup'⟩ := negotiate_tsizeWorker kind w order' (insertPairs ∅ pairs)
  rw [lookup_insertPairs_empty] at hlookup'
  rw [hsize, hlookup, show n'.options.transferSize = _ from hsize',
    show n'.negotiated.lookup "tsize" = _ from hlookup']
  cases kind with
  | rrq =>
      simp only [RequestKind.announced, true_and]
      cases lastValue pairs "tsize" <;>
        cases requestedValue (shortPairs pairs) "tsize" parseUnsigned <;>
          simp [RequestKind.tsizeAnswer]
  | wrq =>
      simp only [RequestKind.announced, Option.map_id']
      constructor
      · rintro ⟨hnone, h⟩
        rw [hnone] at h
        exact h.symm
      · intro h
        have hshort : requestedValue (shortPairs pairs) "tsize" parseUnsigned = none := by
          rw [requestedValue, lastValue_shortPairs_eq_none h]
          rfl
        exact ⟨hshort, by rw [hshort, h]; rfl⟩

theorem negotiates_of_requestSequence {entry : EntryPoint} {kind : RequestKind} {w : Nat}
    {order : IterOrder} {body : Bytes} {name modeStr : String} {pairs : List (String × String)}
    {mode : TransferMode} (hseq : requestSequence entry.parser body = .ok (name, modeStr, pairs))
    (hmode : TransferMode.fromStr modeStr = .ok mode) (hmail : mode ≠ .mail) :
    entry.negotiates kind w order body
      = some ⟨name, mode, (negotiate (entry.tsizeRule kind) w order (insertPairs ∅ pairs)).options,
          (negotiate (entry.tsizeRule kind) w order (insertPairs ∅ pairs)).negotiated⟩ :=
  EntryPoint.negotiates_eq_some.mpr ⟨⟨name, modeStr, insertPairs ∅ pairs⟩,
    parseRequestPacket_eq_ok.mpr ⟨name, modeStr, pairs, hseq, rfl⟩, hmode, hmail, rfl, rfl, rfl⟩

/-- A request that the worker takes. -/
theorem negotiate_alike_of_request {kind : RequestKind} {w : Nat} {order order' : IterOrder}
    {body : Bytes} {name modeStr : String} {pairs : List (String × String)} {mode : TransferMode}
    (hseq : requestSequence parseNullTerminatedString body = .ok (name, modeStr, pairs))
    (hmode : TransferMode.fromStr modeStr = .ok mode) (hmail : mode ≠ .mail) :
    Option.Rel Negotiated.Same (EntryPoint.handleClient.negotiates kind w order body)
      (EntryPoint.processTftpPacket.negotiates kind w order' body) ↔ ReadAlike kind name pairs := by
  have hworker := @negotiates_of_requestSequence .processTftpPacket kind w order' body name modeStr
    pairs mode hseq hmode hmail
  rw [hworker]
  by_cases hname : (asBytes name).length ≤ 254
  · have hread := requestSequence_parseString_iff.mpr
      ⟨pairs, hseq, hname, length_modeStr_le hmode, rfl⟩
    rw [@negotiates_of_requestSequence .handleClient kind w order body name modeStr
      (shortPairs pairs) mode hread hmode hmail, Option.rel_some_some]
    have hsame := (negotiate_eq_iff (EntryPoint.handleClient.onlyTsize kind)
      (EntryPoint.processTftpPacket.onlyTsize kind) w order order'
      (insertPairs ∅ (shortPairs pairs)) (insertPairs ∅ pairs)).trans
      (and_congr_right fun _ => tsize_alike_iff kind pairs w order order')
    simp only [lookup_insertPairs_empty] at hsame
    constructor
    · intro h
      obtain ⟨hranged, htsize⟩ := hsame.mp ⟨h.options, h.lookup⟩
      exact ⟨hname, hranged, htsize⟩
    · intro h
      obtain ⟨hoptions, hlookup⟩ := hsame.mpr ⟨h.ranged, h.tsize⟩
      exact ⟨rfl, rfl, hoptions, hlookup⟩
  · -- the server refuses the file name
    have hserver : EntryPoint.handleClient.negotiates kind w order body = none := by
      rw [Option.eq_none_iff_forall_ne_some]
      intro n hn
      obtain ⟨request, hreq, -⟩ := EntryPoint.negotiates_eq_some.mp hn
      obtain ⟨name', modeStr', read, hread, rfl⟩ := parseRequestPacket_eq_ok.mp hreq
      obtain ⟨pairs', hseq', hlen, -⟩ := requestSequence_parseString_iff.mp hread
      rw [hseq] at hseq'
      cases hseq'
      exact hname hlen
    rw [hserver]
    constructor
    · intro h
      cases h
    · intro h
      exact absurd h.name hname

/-- **When the front ends negotiate alike**: if and only if the worker refuses the request or the
two read it alike. -/
theorem negotiate_alike_iff (kind : RequestKind) (w : Nat) (order order' : IterOrder)
    (body : Bytes) :
    Option.Rel Negotiated.Same (EntryPoint.handleClient.negotiates kind w order body)
      (EntryPoint.processTftpPacket.negotiates kind w order' body) ↔
    ∀ name modeStr pairs mode,
      RequestAt (ParsesAs parseNullTerminatedString) body name modeStr pairs →
      TransferMode.fromStr modeStr = .ok mode → mode ≠ .mail → ReadAlike kind name pairs := by
  simp only [← requestSequence_iff consumes_parseNullTerminatedString]
  by_cases htaken : ∃ name modeStr pairs mode,
      requestSequence parseNullTerminatedString body = .ok (name, modeStr, pairs) ∧
      TransferMode.fromStr modeStr = .ok mode ∧ mode ≠ .mail
  · obtain ⟨name, modeStr, pairs, mode, hseq, hmode, hmail⟩ := htaken
    rw [negotiate_alike_of_request hseq hmode hmail]
    constructor
    · intro h name' modeStr' pairs' mode' hseq' _ _
      rw [hseq] at hseq'
      cases hseq'
      exact h
    · intro h
      exact h name modeStr pairs mode hseq hmode hmail
  · -- a request that the server takes, the worker takes as well
    have hnone : ∀ (entry : EntryPoint) (order : IterOrder),
        entry.negotiates kind w order body = none := by
      intro entry order
      rw [Option.eq_none_iff_forall_ne_some]
      intro n hn
      obtain ⟨request, hreq, hmode, hmail, -⟩ := EntryPoint.negotiates_eq_some.mp hn
      obtain ⟨name, modeStr, read, hread, rfl⟩ := parseRequestPacket_eq_ok.mp hreq
      cases entry with
      | handleClient =>
          obtain ⟨pairs, hseq, -⟩ := requestSequence_parseString_iff.mp hread
          exact htaken ⟨name, modeStr, pairs, n.mode, hseq, hmode, hmail⟩
      | processTftpPacket => exact htaken ⟨name, modeStr, read, n.mode, hread, hmode, hmail⟩
    rw [hnone, hnone]
    constructor
    · intro _ name modeStr pairs mode hseq hmode hmail
      exact absurd ⟨name, modeStr, pairs, mode, hseq, hmode, hmail⟩ htaken
    · intro _
      exact .none

/-- A write that announces its size: the worker confirms it in the OACK and forgets it. -/
theorem worker_forgets_size :
    let body := cstring "a.txt" ++ (cstring "octet" ++ (cstring "tsize" ++ cstring "100"))
    ¬ Option.Rel Negotiated.Same (EntryPoint.handleClient.negotiates .wrq 1 .entries body)
      (EntryPoint.processTftpPacket.negotiates .wrq 1 .entries body) := by
  intro body h
  have hserver : (EntryPoint.handleClient.negotiates .wrq 1 .entries body).map
      (·.options.transferSize) = some (some 100) := by decide +kernel
  have hworker : (EntryPoint.processTftpPacket.negotiates .wrq 1 .entries body).map
      (·.options.transferSize) = some none := by decide +kernel
  generalize EntryPoint.handleClient.negotiates .wrq 1 .entries body = n at h hserver
  generalize EntryPoint.processTftpPacket.negotiates .wrq 1 .entries body = n' at h hworker
  cases h with
  | none => cases hserver
  | some hsame =>
      rw [Option.map_some, hsame.options] at hserver
      rw [Option.map_some, hserver] at hworker
      cases hworker

end UsgTftp
