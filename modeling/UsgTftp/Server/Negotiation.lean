import UsgTftp.Server.Config

set_option autoImplicit false

/-! # What the negotiation grants

The options of a request as they stand on the wire, and what `handle_client` makes of them:
the map it answers with in the OACK and the `TftpOptions` it runs the transfer with.

`negotiation_truthful` says that both are those of the last readable value of each option.
`runs_as_acknowledged_iff` says when the transfer runs with the protocol defaults for every
option that is not in the OACK: the default window size is the one of the configuration.
-/

namespace UsgTftp

open Posix Path

/-! ## Option lists on the wire -/

/-- The bytes of an option list: names and values, each with a NUL. -/
def encodePairs (opts : List (Bytes × Bytes)) : Bytes :=
  opts.flatMap fun o => o.1 ++ 0 :: (o.2 ++ [0])

/-- The pairs before the first one that cannot be read. -/
def readablePairs : List (Bytes × Bytes) → List (String × String)
  | [] => []
  | o :: opts =>
      match wireText o.1, wireText o.2 with
      | some name, some value => (name, value) :: readablePairs opts
      | _, _ => []

/-- The value of the last occurrence of an option, whatever its letter case. -/
def lastValue (pairs : List (String × String)) (name : String) : Option String :=
  ((pairs.filter fun o => toLowercase o.1 = name).getLast?).map (·.2)

theorem lastValue_concat (pairs : List (String × String)) {name key : String} (value : String)
    (h : toLowercase name = key) : lastValue (pairs ++ [(name, value)]) key = some value := by
  simp [lastValue, List.filter_append, h]

/-- The map of the requested options, from the pairs. -/
def insertPairs (m : OptionMap) (pairs : List (String × String)) : OptionMap :=
  pairs.foldl (fun m o => m.insert (toLowercase o.1) o.2) m

/-- **The last value wins.** -/
theorem lookup_insertPairs (pairs : List (String × String)) (m : OptionMap) (name : String) :
    (insertPairs m pairs).lookup name = (lastValue pairs name).or (m.lookup name) := by
  induction pairs using List.reverseRecOn with
  | nil => rfl
  | append_singleton pairs o ih =>
      unfold insertPairs lastValue at *
      rw [List.foldl_append, List.foldl_cons, List.foldl_nil, List.filter_append]
      by_cases ho : toLowercase o.1 = name
      · rw [List.filter_cons_of_pos (by simpa using ho), List.filter_nil, ho,
          AList.lookup_insert, List.getLast?_append]
        rfl
      · rw [List.filter_cons_of_neg (by simpa using ho), List.filter_nil, List.append_nil,
          AList.lookup_insert_ne (Ne.symm ho), ih]

theorem encodePairs_cons (o : Bytes × Bytes) (opts : List (Bytes × Bytes)) :
    encodePairs (o :: opts) = o.1 ++ 0 :: (o.2 ++ 0 :: encodePairs opts) := by
  simp [encodePairs]

/-- **The parser's loop** inserts the readable pairs. -/
theorem parseOptionsLoop_encodePairs (opts : List (Bytes × Bytes))
    (hopts : ∀ o ∈ opts, 0 ∉ o.1 ∧ 0 ∉ o.2) :
    ∀ (fuel : Nat) (m : OptionMap), opts.length ≤ fuel →
      parseOptionsLoop parseString fuel (encodePairs opts) m
        = insertPairs m (readablePairs opts) := by
  induction opts with
  | nil =>
      intro fuel m _
      exact parseOptionsLoop_nil fuel m
  | cons o opts ih =>
      intro fuel m hfuel
      obtain ⟨fuel, rfl⟩ : ∃ k, fuel = k + 1 := ⟨fuel - 1, by rw [List.length_cons] at hfuel; omega⟩
      obtain ⟨hn, hv⟩ := hopts o List.mem_cons_self
      have hne : encodePairs (o :: opts) ≠ [] := by
        rw [encodePairs_cons]
        simp
      rw [parseOptionsLoop, if_neg hne, encodePairs_cons, readablePairs]
      -- an unreadable name or value ends the loop: what follows is not seen
      cases hname : wireText o.1 with
      | none =>
          obtain ⟨e, he⟩ := parseString_unreadable (o.2 ++ 0 :: encodePairs opts) hn hname
          rw [he]
          rfl
      | some name =>
          rw [parseString_wireText hn hname]
          dsimp only
          cases hvalue : wireText o.2 with
          | none =>
              obtain ⟨e, he⟩ := parseString_unreadable (encodePairs opts) hv hvalue
              rw [he]
              rfl
          | some value =>
              rw [parseString_wireText hv hvalue]
              dsimp only
              rw [ih (fun o' ho' => hopts o' (List.mem_cons_of_mem _ ho')) fuel _
                (by rw [List.length_cons] at hfuel; omega)]
              rfl

theorem length_le_encodePairs (opts : List (Bytes × Bytes)) :
    opts.length ≤ (encodePairs opts).length := by
  induction opts with
  | nil => exact Nat.zero_le _
  | cons o opts ih =>
      rw [encodePairs_cons]
      simp only [List.length_cons, List.length_append]
      omega

theorem parseOptions_encodePairs {opts : List (Bytes × Bytes)}
    (hopts : ∀ o ∈ opts, 0 ∉ o.1 ∧ 0 ∉ o.2) :
    parseOptions parseString (encodePairs opts) = insertPairs ∅ (readablePairs opts) :=
  parseOptionsLoop_encodePairs opts hopts _ ∅ (length_le_encodePairs opts)

/-! ## The negotiated map -/

/-- A rule for `tsize` that leaves the other options alone. -/
structure OnlyTsize (tsize : Negotiation → String → Negotiation) : Prop where
  blockSize : ∀ acc v, (tsize acc v).options.blockSize = acc.options.blockSize
  timeout : ∀ acc v, (tsize acc v).options.timeout = acc.options.timeout
  windowsize : ∀ acc v, (tsize acc v).options.windowsize = acc.options.windowsize
  lookup : ∀ acc v key, key ≠ "tsize" →
    (tsize acc v).negotiated.lookup key = acc.negotiated.lookup key

theorem onlyTsize_rrq : OnlyTsize tsizeRrq := by
  refine ⟨?_, ?_, tsizeRrq_windowsize, ?_⟩
  · intro acc v
    rw [tsizeRrq_options]
  · intro acc v
    rw [tsizeRrq_options]
  · intro acc v key hkey
    unfold tsizeRrq
    split
    · exact AList.lookup_insert_ne hkey
    · rfl

theorem onlyTsize_wrq : OnlyTsize tsizeWrq := by
  refine ⟨?_, ?_, tsizeWrq_windowsize, ?_⟩
  · intro acc v
    unfold tsizeWrq
    split <;> rfl
  · intro acc v
    unfold tsizeWrq
    split <;> rfl
  · intro acc v key hkey
    unfold tsizeWrq
    split
    · exact AList.lookup_insert_ne hkey
    · rfl

theorem onlyTsize_rrqWorker : OnlyTsize tsizeRrqWorker :=
  ⟨fun _ _ => rfl, fun _ _ => rfl, fun _ _ => rfl, fun _ _ _ hkey => AList.lookup_insert_ne hkey⟩

theorem onlyTsize_wrqWorker : OnlyTsize tsizeWrqWorker :=
  ⟨fun _ _ => rfl, fun _ _ => rfl, fun _ _ => rfl, fun _ _ _ hkey => AList.lookup_insert_ne hkey⟩

section Negotiate

variable {tsize : Negotiation → String → Negotiation}

/-- One turn of the loop touches the entry of its own option only. -/
theorem lookup_negotiateOption_ne (htsize : OnlyTsize tsize) (acc : Negotiation)
    {e : OptionEntry} {key : String} (he : e.1 ≠ key) :
    (negotiateOption tsize acc e).negotiated.lookup key = acc.negotiated.lookup key := by
  have hinsert : ∀ name n : String, e.1 = name →
      (acc.negotiated.insert name n).lookup key = acc.negotiated.lookup key := by
    rintro name n rfl
    exact AList.lookup_insert_ne (Ne.symm he)
  unfold negotiateOption
  split_ifs with hblk htime hts hwin
  · cases parseInRange 8 maxBlockSize e.2 with
    | none => rfl
    | some n => exact hinsert _ _ hblk
  · cases parseInRange 1 255 e.2 with
    | none => rfl
    | some n => exact hinsert _ _ htime
  · exact htsize.lookup acc e.2 key (fun h => he (hts.trans h.symm))
  · cases parseInRange 1 65535 e.2 with
    | none => rfl
    | some n => exact hinsert _ _ hwin
  · rfl

/-- The entry of an option after the loop, if a turn makes it `g` of the requested value. -/
theorem negotiate_lookup (htsize : OnlyTsize tsize) {key : String} {g : String → Option String}
    (hkey : ∀ acc v, (negotiateOption tsize acc ⟨key, v⟩).negotiated.lookup key
      = (g v).or (acc.negotiated.lookup key))
    (defaultWindowsize : Nat) (order : IterOrder) (requested : OptionMap) :
    (negotiate tsize defaultWindowsize order requested).negotiated.lookup key
      = (requested.lookup key).bind g := by
  have h := @negotiate_field (Option String) (fun n => n.negotiated.lookup key) key
    (fun v old => (g v).or old) tsize hkey
    (fun acc e he => lookup_negotiateOption_ne htsize acc he) defaultWindowsize order requested
  rw [h]
  cases requested.lookup key with
  | none => rfl
  | some v => exact Option.or_none

theorem negotiate_lookup_blksize (htsize : OnlyTsize tsize) (defaultWindowsize : Nat)
    (order : IterOrder) (requested : OptionMap) :
    (negotiate tsize defaultWindowsize order requested).negotiated.lookup "blksize"
      = (requested.lookup "blksize").bind fun v =>
          (parseInRange 8 maxBlockSize v).map Nat.repr := by
  refine negotiate_lookup htsize ?_ _ _ _
  intro acc v
  simp only [negotiateOption, if_true]
  cases parseInRange 8 maxBlockSize v with
  | none => rfl
  | some n => exact AList.lookup_insert _

theorem negotiate_lookup_timeout (htsize : OnlyTsize tsize) (defaultWindowsize : Nat)
    (order : IterOrder) (requested : OptionMap) :
    (negotiate tsize defaultWindowsize order requested).negotiated.lookup "timeout"
      = (requested.lookup "timeout").bind fun v => (parseInRange 1 255 v).map Nat.repr := by
  refine negotiate_lookup htsize ?_ _ _ _
  intro acc v
  simp only [negotiateOption, String.reduceEq, if_false, if_true]
  cases parseInRange 1 255 v with
  | none => rfl
  | some n => exact AList.lookup_insert _

theorem negotiate_lookup_windowsize (htsize : OnlyTsize tsize) (defaultWindowsize : Nat)
    (order : IterOrder) (requested : OptionMap) :
    (negotiate tsize defaultWindowsize order requested).negotiated.lookup "windowsize"
      = (requested.lookup "windowsize").bind fun v =>
          (parseInRange 1 65535 v).map Nat.repr := by
  refine negotiate_lookup htsize ?_ _ _ _
  intro acc v
  simp only [negotiateOption, String.reduceEq, if_false, if_true]
  cases parseInRange 1 65535 v with
  | none => rfl
  | some n => exact AList.lookup_insert _

/-- No other option is in the map. -/
theorem negotiate_lookup_unknown (htsize : OnlyTsize tsize) {key : String}
    (hkey : key ∉ ["blksize", "timeout", "tsize", "windowsize"]) (defaultWindowsize : Nat)
    (order : IterOrder) (requested : OptionMap) :
    (negotiate tsize defaultWindowsize order requested).negotiated.lookup key = none := by
  simp only [List.mem_cons, List.not_mem_nil, or_false, not_or] at hkey
  rw [@negotiate_lookup _ htsize _ (fun _ => none) ?_]
  · cases requested.lookup key <;> rfl
  · intro acc v
    simp [negotiateOption, hkey]

theorem negotiate_timeout (htsize : OnlyTsize tsize) (defaultWindowsize : Nat)
    (order : IterOrder) (requested : OptionMap) :
    (negotiate tsize defaultWindowsize order requested).options.timeout
      = ((requested.lookup "timeout").bind (parseInRange 1 255)).getD defaultTimeoutSecs := by
  have h := @negotiate_field Nat (fun n => n.options.timeout) "timeout"
    (fun v old => (parseInRange 1 255 v).getD old) tsize ?_ ?_ defaultWindowsize order requested
  · rw [h]
    cases requested.lookup "timeout" <;> rfl
  · intro acc v
    simp only [negotiateOption, String.reduceEq, if_false, if_true]
    cases parseInRange 1 255 v <;> rfl
  · intro acc e he
    unfold negotiateOption
    split_ifs
    · cases parseInRange 8 maxBlockSize e.2 <;> rfl
    · exact htsize.timeout acc e.2
    · cases parseInRange 1 65535 e.2 <;> rfl
    · rfl

/-- The announced size is what the rule for `tsize` makes of it. -/
theorem negotiate_transferSize {g : String → Option Nat}
    (hg : ∀ acc v, (tsize acc v).options.transferSize = (g v).or acc.options.transferSize)
    (defaultWindowsize : Nat) (order : IterOrder) (requested : OptionMap) :
    (negotiate tsize defaultWindowsize order requested).options.transferSize
      = (requested.lookup "tsize").bind g := by
  have h := @negotiate_field (Option Nat) (fun n => n.options.transferSize) "tsize"
    (fun v old => (g v).or old) tsize ?_ ?_ defaultWindowsize order requested
  · rw [h]
    cases requested.lookup "tsize" with
    | none => rfl
    | some v => exact Option.or_none
  · intro acc v
    simp only [negotiateOption, String.reduceEq, if_false, if_true]
    exact hg acc v
  · intro acc e he
    unfold negotiateOption
    split_ifs
    · cases parseInRange 8 maxBlockSize e.2 <;> rfl
    · cases parseInRange 1 255 e.2 <;> rfl
    · cases parseInRange 1 65535 e.2 <;> rfl
    · rfl

end Negotiate

/-! ## Requests -/

inductive RequestKind where
  | rrq
  | wrq
  deriving DecidableEq, Repr

def RequestKind.opcode : RequestKind → Opcode
  | .rrq => .rrq
  | .wrq => .wrq

def RequestKind.tsizeRule : RequestKind → Negotiation → String → Negotiation
  | .rrq => tsizeRrq
  | .wrq => tsizeWrq

theorem RequestKind.onlyTsize (kind : RequestKind) : OnlyTsize kind.tsizeRule := by
  cases kind with
  | rrq => exact onlyTsize_rrq
  | wrq => exact onlyTsize_wrq

/-- The bytes of a request. -/
def requestPacket (kind : RequestKind) (name mode : Bytes) (opts : List (Bytes × Bytes)) : Bytes :=
  putU16 kind.opcode.toU16 ++ (name ++ 0 :: (mode ++ 0 :: encodePairs opts))

section Starts

variable (env : Env) (t : Tree) (glob : Glob) (config : ServerConfig)

/-- The datagram starts a transfer of the given kind, with these options and this OACK map. -/
def RequestKind.Starts (kind : RequestKind) (order : IterOrder) (data : Bytes)
    (options : TftpOptions) (negotiated : OptionMap) : Prop :=
  match kind with
  | .rrq => ∃ p mode, handleClient env t glob config order data
      = .ok (.read p mode options negotiated)
  | .wrq => ∃ p q created, handleClient env t glob config order data = .ok (.write p q created) ∧
      q.options = options ∧ q.negotiatedOptions = negotiated

/-- The checks that a request passes when its transfer is started. -/
def RequestKind.Admits (kind : RequestKind) (request : Request) : Prop :=
  match kind with
  | .rrq => ∃ p mode, "multicast" ∉ request.options ∧
      TransferMode.fromStr request.modeStr = .ok mode ∧ mode ≠ .mail ∧
      validateAndResolvePath env t config.rootDir request.filename = .ok p
  | .wrq => ∃ p mode, WrqChecked env t config request mode p ∧
      isWriteAllowed glob p config.rootDir config.writeConfig = true

end Starts

section Starts

variable {env : Env} {t : Tree} {glob : Glob} {config : ServerConfig} {kind : RequestKind}
  {order : IterOrder} {data : Bytes} {options : TftpOptions} {negotiated : OptionMap}

/-- **What a transfer is started with**: the checks do not depend on the iteration order, and
the options are those that the loop negotiates. -/
theorem starts_iff :
    kind.Starts env t glob config order data options negotiated ↔
    ∃ bytes request, getU16 data = some (kind.opcode.toU16, bytes) ∧
      parseRequestPacket parseString bytes = .ok request ∧
      kind.Admits env t glob config request ∧
      options
        = (negotiate kind.tsizeRule config.defaultWindowsize order request.options).options ∧
      negotiated
        = (negotiate kind.tsizeRule config.defaultWindowsize order request.options).negotiated := by
  cases kind with
  | rrq =>
      constructor
      · rintro ⟨p, mode, h⟩
        obtain ⟨bytes, hdata, h⟩ := handleClient_read_iff.mp h
        obtain ⟨request, hreq, hmulti, h⟩ := handleClientRrq_read_iff.mp h
        exact ⟨bytes, request, hdata, hreq, ⟨p, mode, hmulti, h.mode_eq, h.notMail, h.path⟩,
          h.options_eq, h.negotiated_eq⟩
      · rintro ⟨bytes, request, hdata, hreq, ⟨p, mode, hmulti, hmode, hmail, hpath⟩, ho, hn⟩
        exact ⟨p, mode, handleClient_read_iff.mpr ⟨bytes, hdata, handleClientRrq_read_iff.mpr
          ⟨request, hreq, hmulti, hmode, hmail, hpath, ho, hn⟩⟩⟩
  | wrq =>
      constructor
      · rintro ⟨p, q, created, h, rfl, rfl⟩
        obtain ⟨bytes, hdata, h⟩ := handleClient_write_iff.mp h
        obtain ⟨request, mode, hreq, hc, hallowed, rfl, -⟩ := handleClientWrq_write_iff.mp h
        exact ⟨bytes, request, hdata, hreq, ⟨p, mode, hc, hallowed⟩, rfl, rfl⟩
      · rintro ⟨bytes, request, hdata, hreq, ⟨p, mode, hc, hallowed⟩, rfl, rfl⟩
        exact ⟨p, _, _, handleClient_write_iff.mpr ⟨bytes, hdata, handleClientWrq_write_iff.mpr
          ⟨request, mode, hreq, hc, hallowed, rfl, rfl⟩⟩, rfl, rfl⟩

theorem parseRequestPacket_raw {name mode rest : Bytes} (hname : 0 ∉ name) (hmode : 0 ∉ mode)
    {request : Request}
    (h : parseRequestPacket parseString (name ++ 0 :: (mode ++ 0 :: rest)) = .ok request) :
    request.options = parseOptions parseString rest := by
  obtain ⟨⟨filename, bytes⟩, hparse, h⟩ := bind_eq_ok.mp h
  obtain ⟨⟨modeStr, bytes'⟩, hparse', h⟩ := bind_eq_ok.mp h
  cases hn : wireText name with
  | none =>
      obtain ⟨e, he⟩ := parseString_unreadable (mode ++ 0 :: rest) hname hn
      rw [he] at hparse
      cases hparse
  | some filename' =>
      rw [parseString_wireText hname hn] at hparse
      cases hparse
      cases hm : wireText mode with
      | none =>
          obtain ⟨e, he⟩ := parseString_unreadable rest hmode hm
          rw [he] at hparse'
          cases hparse'
      | some modeStr' =>
          rw [parseString_wireText hmode hm] at hparse'
          cases hparse'
          cases h
          rfl

end Starts

/-! ## Truthful answers -/

/-- The value that the last occurrence of an option asks for, if it is a valid one. -/
def requestedValue (pairs : List (String × String)) (name : String)
    (parse : String → Option Nat) : Option Nat :=
  (lastValue pairs name).bind parse

/-- What the map holds for a valid `tsize`; in a read the size of the file is filled in
later. -/
def RequestKind.tsizeAnswer : RequestKind → Nat → String
  | .rrq, _ => "0"
  | .wrq, size => size.repr

/-- The size that the transfer is announced with. -/
def RequestKind.announced : RequestKind → Option Nat → Option Nat
  | .rrq, _ => none
  | .wrq, size => size

/-- The OACK map and the options of the transfer are those that the pairs ask for. -/
structure Truthful (kind : RequestKind) (pairs : List (String × String)) (defaultWindowsize : Nat)
    (options : TftpOptions) (negotiated : OptionMap) : Prop where
  blksize : negotiated.lookup "blksize"
    = (requestedValue pairs "blksize" (parseInRange 8 65464)).map Nat.repr
  blockSize : options.blockSize
    = (requestedValue pairs "blksize" (parseInRange 8 65464)).getD 512
  timeout : negotiated.lookup "timeout"
    = (requestedValue pairs "timeout" (parseInRange 1 255)).map Nat.repr
  timeoutSecs : options.timeout
    = (requestedValue pairs "timeout" (parseInRange 1 255)).getD 5
  windowsize : negotiated.lookup "windowsize"
    = (requestedValue pairs "windowsize" (parseInRange 1 65535)).map Nat.repr
  windowBlocks : options.windowsize
    = (requestedValue pairs "windowsize" (parseInRange 1 65535)).getD defaultWindowsize
  tsize : negotiated.lookup "tsize"
    = (requestedValue pairs "tsize" parseUnsigned).map kind.tsizeAnswer
  transferSize : options.transferSize
    = kind.announced (requestedValue pairs "tsize" parseUnsigned)
  known : ∀ name, name ∈ negotiated → name ∈ ["blksize", "timeout", "tsize", "windowsize"]

theorem bind_map_eq {pairs : List (String × String)} {name : String}
    {parse : String → Option Nat} {f : Nat → String} :
    ((lastValue pairs name).bind fun v => (parse v).map f)
      = (requestedValue pairs name parse).map f := by
  unfold requestedValue
  cases lastValue pairs name <;> rfl

/-- **The loop is truthful** about the map it is given. -/
theorem truthful_negotiate (kind : RequestKind) (pairs : List (String × String)) (w : Nat)
    (order : IterOrder) :
    Truthful kind pairs w (negotiate kind.tsizeRule w order (insertPairs ∅ pairs)).options
      (negotiate kind.tsizeRule w order (insertPairs ∅ pairs)).negotiated := by
  have hlast : ∀ name, (insertPairs ∅ pairs).lookup name = lastValue pairs name := by
    intro name
    rw [lookup_insertPairs]
    exact Option.or_none
  have hts := kind.onlyTsize
  -- three options come as a pair of OACK entry and value in force; `tsize` depends on the kind
  constructor
  · rw [negotiate_lookup_blksize hts, hlast]
    exact bind_map_eq
  · rw [negotiate_blockSize hts.blockSize, hlast]
    rfl
  · rw [negotiate_lookup_timeout hts, hlast]
    exact bind_map_eq
  · rw [negotiate_timeout hts, hlast]
    rfl
  · rw [negotiate_lookup_windowsize hts, hlast]
    exact bind_map_eq
  · rw [negotiate_windowsize hts.windowsize, hlast]
    rfl
  · rw [← bind_map_eq, ← hlast]
    refine negotiate_lookup hts ?_ _ _ _
    intro acc v
    simp only [negotiateOption, String.reduceEq, if_false, if_true]
    cases kind with
    | rrq =>
        simp only [RequestKind.tsizeRule, tsizeRrq]
        cases parseUnsigned v with
        | none => rfl
        | some n => exact AList.lookup_insert _
    | wrq =>
        simp only [RequestKind.tsizeRule, tsizeWrq]
        cases parseUnsigned v with
        | none => rfl
        | some n => exact AList.lookup_insert _
  · cases kind with
    | rrq =>
        rw [@negotiate_transferSize _ fun _ => none]
        · cases (insertPairs ∅ pairs).lookup "tsize" <;> rfl
        · intro acc v
          simp only [RequestKind.tsizeRule, tsizeRrq]
          cases parseUnsigned v <;> rfl
    | wrq =>
        rw [@negotiate_transferSize _ parseUnsigned, hlast]
        · rfl
        · intro acc v
          simp only [RequestKind.tsizeRule, tsizeWrq]
          cases parseUnsigned v <;> rfl
  · intro name hname
    by_contra hunknown
    have hnone := negotiate_lookup_unknown hts hunknown w order (insertPairs ∅ pairs)
    exact absurd hname (AList.lookup_eq_none.mp hnone)

/-! ## The bytes of the OACK -/

/-- Splitting the option bytes at the NULs gives the names and values, and an empty rest. -/
theorem splitOn_options (entries : List OptionEntry)
    (h : ∀ e ∈ entries, 0 ∉ asBytes e.1 ∧ 0 ∉ asBytes e.2) :
    (entries.flatMap fun o => cstring o.1 ++ cstring o.2).splitOn 0
      = entries.flatMap (fun e => [asBytes e.1, asBytes e.2]) ++ [[]] := by
  induction entries with
  | nil => rfl
  | cons e entries ih =>
      obtain ⟨hname, hvalue⟩ := h e List.mem_cons_self
      have hform : (e :: entries).flatMap (fun o => cstring o.1 ++ cstring o.2)
          = asBytes e.1 ++ 0 :: (asBytes e.2 ++ 0 ::
              entries.flatMap fun o => cstring o.1 ++ cstring o.2) := by
        simp [cstring]
      rw [hform, List.splitOn_append_cons_self_of_not_mem hname,
        List.splitOn_append_cons_self_of_not_mem hvalue,
        ih (fun e' he' => h e' (List.mem_cons_of_mem _ he'))]
      rfl

/-- The packet carries exactly the entries of the map. -/
def OackCarries (order : IterOrder) (m : OptionMap) : Prop :=
  ((buildOackPacket (order.iter m)).drop 2).splitOn 0
    = (order.iter m).flatMap (fun e => [asBytes e.1, asBytes e.2]) ++ [[]] ∧
  (order.iter m).Perm m.entries

theorem oackCarries (order : IterOrder) {m : OptionMap}
    (h : ∀ name value, m.lookup name = some value → 0 ∉ asBytes name ∧ 0 ∉ asBytes value) :
    OackCarries order m := by
  refine ⟨?_, order.perm m⟩
  rw [drop_two_of_getU16 (getU16_buildOackPacket _)]
  refine splitOn_options _ ?_
  intro e he
  have hmem : e ∈ m.entries := (order.perm m).mem_iff.mp he
  exact h e.1 e.2 (AList.mem_lookup_iff.mpr hmem)

/-- Names and values of a truthful map are free of NULs. -/
theorem Truthful.noNul {kind : RequestKind} {pairs : List (String × String)} {w : Nat}
    {options : TftpOptions} {negotiated : OptionMap}
    (h : Truthful kind pairs w options negotiated) {name value : String}
    (hlook : negotiated.lookup name = some value) : 0 ∉ asBytes name ∧ 0 ∉ asBytes value := by
  have hrepr : ∀ {o : Option Nat}, o.map Nat.repr = some value → 0 ∉ asBytes value := by
    intro o ho
    obtain ⟨n, -, rfl⟩ := Option.map_eq_some_iff.mp ho
    exact (asBytes_repr_digits n).1
  have hmem : name ∈ negotiated := AList.lookup_isSome.mp (by rw [hlook]; rfl)
  have hknown := h.known name hmem
  simp only [List.mem_cons, List.not_mem_nil, or_false] at hknown
  rcases hknown with rfl | rfl | rfl | rfl
  · exact ⟨by decide, hrepr (h.blksize.symm.trans hlook)⟩
  · exact ⟨by decide, hrepr (h.timeout.symm.trans hlook)⟩
  · refine ⟨by decide, ?_⟩
    obtain ⟨n, -, rfl⟩ := Option.map_eq_some_iff.mp (h.tsize.symm.trans hlook)
    cases kind with
    | rrq => exact (asBytes_repr_digits 0).1
    | wrq => exact (asBytes_repr_digits n).1
  · exact ⟨by decide, hrepr (h.windowsize.symm.trans hlook)⟩

/-- A truthful answer is determined by the pairs. -/
theorem Truthful.unique {kind : RequestKind} {pairs : List (String × String)} {w : Nat}
    {o o' : TftpOptions} {m m' : OptionMap} (h : Truthful kind pairs w o m)
    (h' : Truthful kind pairs w o' m') : o' = o ∧ ∀ key, m'.lookup key = m.lookup key := by
  constructor
  · cases o
    cases o'
    simp only [TftpOptions.mk.injEq]
    exact ⟨h'.blockSize.trans h.blockSize.symm, h'.timeoutSecs.trans h.timeoutSecs.symm,
      h'.transferSize.trans h.transferSize.symm, h'.windowBlocks.trans h.windowBlocks.symm⟩
  · intro key
    by_cases hkey : key ∈ ["blksize", "timeout", "tsize", "windowsize"]
    · simp only [List.mem_cons, List.not_mem_nil, or_false] at hkey
      rcases hkey with rfl | rfl | rfl | rfl
      · exact h'.blksize.trans h.blksize.symm
      · exact h'.timeout.trans h.timeout.symm
      · exact h'.tsize.trans h.tsize.symm
      · exact h'.windowsize.trans h.windowsize.symm
    · have hnone : m.lookup key = none := AList.lookup_eq_none.mpr fun hm => hkey (h.known key hm)
      have hnone' : m'.lookup key = none :=
        AList.lookup_eq_none.mpr fun hm => hkey (h'.known key hm)
      rw [hnone, hnone']

/-- **The negotiation is truthful.** Whatever options a request carries, the OACK map of the
transfer it starts and the options the transfer runs with are those of the last valid value
among the readable pairs; they are the same for every iteration order of the hash map, and
the OACK packet can be split into exactly the entries of the map, also after a read has
filled in the size of the file. -/
theorem negotiation_truthful (env : Env) (t : Tree) (glob : Glob) (config : ServerConfig)
    (order : IterOrder) (kind : RequestKind) (name mode : Bytes) (opts : List (Bytes × Bytes))
    (hname : 0 ∉ name) (hmode : 0 ∉ mode) (hopts : ∀ o ∈ opts, 0 ∉ o.1 ∧ 0 ∉ o.2)
    (options : TftpOptions) (negotiated : OptionMap)
    (h : kind.Starts env t glob config order (requestPacket kind name mode opts) options
      negotiated) :
    Truthful kind (readablePairs opts) config.defaultWindowsize options negotiated ∧
    (∀ order' : IterOrder, ∃ negotiated' : OptionMap,
      kind.Starts env t glob config order' (requestPacket kind name mode opts) options
        negotiated' ∧
      ∀ key, negotiated'.lookup key = negotiated.lookup key) ∧
    ∀ order' : IterOrder, OackCarries order' negotiated ∧
      ∀ size : Nat, OackCarries order' (negotiated.insert "tsize" size.repr) := by
  obtain ⟨bytes, request, hdata, hreq, hadmits, rfl, rfl⟩ := starts_iff.mp h
  have hbytes : bytes = name ++ 0 :: (mode ++ 0 :: encodePairs opts) := by
    rw [requestPacket, getU16_putU16] at hdata
    cases hdata
    rfl
  subst hbytes
  -- the request's map is that of the readable pairs, whatever order it is iterated in
  have hreqopts : request.options = insertPairs ∅ (readablePairs opts) := by
    rw [parseRequestPacket_raw hname hmode hreq, parseOptions_encodePairs hopts]
  rw [hreqopts]
  have htruth : ∀ order', Truthful kind (readablePairs opts) config.defaultWindowsize _ _ :=
    truthful_negotiate kind (readablePairs opts) config.defaultWindowsize
  refine ⟨htruth order, ?_, ?_⟩
  · intro order'
    obtain ⟨hoptions, hlookup⟩ := (htruth order).unique (htruth order')
    refine ⟨_, starts_iff.mpr ⟨_, request, hdata, hreq, hadmits, ?_, rfl⟩, ?_⟩
    · rw [hreqopts]
      exact hoptions.symm
    · rw [hreqopts]
      exact hlookup
  · intro order'
    refine ⟨oackCarries order' fun _ _ => (htruth order).noNul, fun size => oackCarries order' ?_⟩
    intro key value hlook
    by_cases hkey : key = "tsize"
    · subst hkey
      rw [AList.lookup_insert] at hlook
      cases hlook
      exact ⟨by decide, (asBytes_repr_digits size).1⟩
    · rw [AList.lookup_insert_ne hkey] at hlook
      exact (htruth order).noNul hlook

/-- The options and the entries of the OACK map that a read is started with. -/
def startedRead : Except TftpError Dispatch → Option (TftpOptions × List OptionEntry)
  | .ok (.read _ _ options negotiated) => some (options, negotiated.entries)
  | _ => none

theorem starts_of_startedRead {env : Env} {t : Tree} {glob : Glob} {config : ServerConfig}
    {order : IterOrder} {data : Bytes} {options : TftpOptions} {entries : List OptionEntry}
    (h : startedRead (handleClient env t glob config order data) = some (options, entries)) :
    ∃ negotiated, negotiated.entries = entries ∧
      RequestKind.rrq.Starts env t glob config order data options negotiated := by
  cases hr : handleClient env t glob config order data with
  | error e =>
      rw [hr] at h
      cases h
  | ok d =>
      rw [hr] at h
      cases d with
      | read p mode options' negotiated =>
          cases h
          exact ⟨negotiated, rfl, p, mode, hr⟩
      | ignored => cases h
      | replied code message => cases h
      | multicast filename mode options => cases h
      | write p q created => cases h

/-- An RRQ for `a.txt`. -/
def txtReadRequest (opts : List (Bytes × Bytes)) : Bytes :=
  requestPacket .rrq (asBytes "a.txt") (asBytes "octet") opts

/-- Reads from `/srv/tftp`, with the given default window size. -/
def readOnly (defaultWindowsize : Nat) : ServerConfig :=
  ⟨ofString "/srv/tftp", ⟨false, false, []⟩, 0, defaultWindowsize, false⟩

/-- Two block sizes, in different letter case: the last one is granted. -/
theorem negotiation_truthful_two_sizes :
    let opts := [(asBytes "blksize", asBytes "512"), (asBytes "BLKSIZE", asBytes "1024")]
    ∃ options negotiated,
      RequestKind.rrq.Starts ⟨[], 40⟩ emptyRoot suffixGlob (readOnly 1) .entries
        (txtReadRequest opts) options negotiated ∧
      options.blockSize = 1024 ∧ Truthful .rrq (readablePairs opts) 1 options negotiated := by
  intro opts
  have hread : startedRead (handleClient ⟨[], 40⟩ emptyRoot suffixGlob (readOnly 1) .entries
      (txtReadRequest opts)) = some ({ blockSize := 1024 }, [⟨"blksize", "1024"⟩]) := by
    decide +kernel
  obtain ⟨negotiated, -, hstarts⟩ := starts_of_startedRead hread
  refine ⟨_, negotiated, hstarts, rfl, ?_⟩
  exact (negotiation_truthful ⟨[], 40⟩ emptyRoot suffixGlob (readOnly 1) .entries .rrq
    (asBytes "a.txt") (asBytes "octet") opts (by decide) (by decide) (by decide) _ _ hstarts).1

/-- All pairs of an option list, as texts. -/
def allPairs (opts : List (Bytes × Bytes)) : List (String × String) :=
  opts.filterMap fun o => do
    let name ← fromUtf8 o.1
    let value ← fromUtf8 o.2
    return (name, value)

theorem allPairs_concat (opts : List (Bytes × Bytes)) (name value : String) :
    allPairs (opts ++ [(asBytes name, asBytes value)]) = allPairs opts ++ [(name, value)] := by
  simp [allPairs, List.filterMap_append]

/-- An option with a name of 300 bytes hides the valid block size that follows it. -/
theorem long_option_hides_blksize :
    let opts := [(List.replicate 300 97, asBytes "1"), (asBytes "blksize", asBytes "1024")]
    ∃ options negotiated,
      RequestKind.rrq.Starts ⟨[], 40⟩ emptyRoot suffixGlob (readOnly 1) .entries
        (txtReadRequest opts) options negotiated ∧
      ¬ Truthful .rrq (allPairs opts) 1 options negotiated := by
  intro opts
  have hread : startedRead (handleClient ⟨[], 40⟩ emptyRoot suffixGlob (readOnly 1) .entries
      (txtReadRequest opts)) = some ({}, []) := by
    decide +kernel
  -- the block size is the last pair, whatever stands before it
  have hvalue : requestedValue (allPairs opts) "blksize" (parseInRange 8 65464) = some 1024 := by
    rw [requestedValue, show opts = [(List.replicate 300 97, asBytes "1")]
      ++ [(asBytes "blksize", asBytes "1024")] from rfl, allPairs_concat,
      lastValue_concat _ _ toLowercase_blksize, Option.bind_some]
    decide +kernel
  obtain ⟨negotiated, -, hstarts⟩ := starts_of_startedRead hread
  refine ⟨_, negotiated, hstarts, fun h => ?_⟩
  have hsize := h.blockSize
  rw [hvalue] at hsize
  exact absurd hsize (by decide)

/-! ## Options that are not acknowledged -/

/-- The block size, the timeout and the window size are those of the OACK, and the protocol
defaults for the options that are not in it. -/
structure RunsAsAcknowledged (options : TftpOptions) (negotiated : OptionMap) : Prop where
  blockSize : options.blockSize = ((negotiated.lookup "blksize").bind parseUnsigned).getD 512
  timeout : options.timeout = ((negotiated.lookup "timeout").bind parseUnsigned).getD 5
  windowsize : options.windowsize = ((negotiated.lookup "windowsize").bind parseUnsigned).getD 1

section Transfers

variable (env : Env) (config : TftpConfig)

/-- `handle_read_request` or `handle_write_request` is called with these options. -/
def TftpConfig.Transfers (t : Tree) (glob : Glob) (order : IterOrder) (data : Bytes)
    (options : TftpOptions) (negotiated : OptionMap) : Prop :=
  (∃ p mode, config.Dispatches env t glob order data (.read p mode options negotiated)) ∨
  ∃ p q created, config.Dispatches env t glob order data (.write p q created) ∧
    q.options = options ∧ q.negotiatedOptions = negotiated

/-- The function that the strings of a request are read with. -/
def TftpConfig.parser : StringParser :=
  if config.performance.workerPool.enabled then parseNullTerminatedString else parseString

/-- The window size that a request asks for, if it is a valid one. -/
def TftpConfig.requestedWindowsize (data : Bytes) : Option Nat :=
  match parseRequestPacket config.parser (data.drop 2) with
  | .ok request => (request.options.lookup "windowsize").bind (parseInRange 1 65535)
  | .error _ => none

end Transfers

section Transfers

variable {env : Env} {config : TftpConfig} {t : Tree} {glob : Glob} {order : IterOrder}
  {data : Bytes} {options : TftpOptions} {negotiated : OptionMap}

/-- Every transfer runs with the options that one of the loops negotiates. -/
theorem transfers_negotiate (h : config.Transfers env t glob order data options negotiated) :
    ∃ tsize request, OnlyTsize tsize ∧
      parseRequestPacket config.parser (data.drop 2) = .ok request ∧
      options = (negotiate tsize config.performance.defaultWindowsize.toNat order
        request.options).options ∧
      negotiated = (negotiate tsize config.performance.defaultWindowsize.toNat order
        request.options).negotiated := by
  unfold TftpConfig.parser
  -- read or write, worker pool or not: four paths with the same loop
  rcases h with ⟨p, mode, h⟩ | ⟨p, q, created, h, rfl, rfl⟩
  · unfold TftpConfig.Dispatches at h
    split_ifs at h ⊢
    · obtain ⟨bytes, hdata, h⟩ := processTftpPacket_read_iff.mp h
      obtain ⟨request, hreq, h⟩ := handleReadRequestWorker_read_iff.mp h
      rw [drop_two_of_getU16 hdata]
      exact ⟨_, request, onlyTsize_rrqWorker, hreq, h.options_eq, h.negotiated_eq⟩
    · obtain ⟨bytes, hdata, h⟩ := handleClient_read_iff.mp h
      obtain ⟨request, hreq, -, h⟩ := handleClientRrq_read_iff.mp h
      rw [drop_two_of_getU16 hdata]
      exact ⟨_, request, onlyTsize_rrq, hreq, h.options_eq, h.negotiated_eq⟩
  · unfold TftpConfig.Dispatches at h
    split_ifs at h ⊢
    · obtain ⟨bytes, hdata, h⟩ := processTftpPacket_write_iff.mp h
      obtain ⟨request, mode, hreq, -, rfl, -⟩ := handleWriteRequestWorker_write_iff.mp h
      rw [drop_two_of_getU16 hdata]
      exact ⟨_, request, onlyTsize_wrqWorker, hreq, rfl, rfl⟩
    · obtain ⟨bytes, hdata, h⟩ := handleClient_write_iff.mp h
      obtain ⟨request, mode, hreq, -, -, rfl, -⟩ := handleClientWrq_write_iff.mp h
      rw [drop_two_of_getU16 hdata]
      exact ⟨_, request, onlyTsize_wrq, hreq, rfl, rfl⟩

/-- A granted value is read back from the map. -/
theorem bind_parseUnsigned_repr {o : Option String} {lo hi : Nat} (hhi : hi < 2 ^ 64) :
    (o.bind fun v => (parseInRange lo hi v).map Nat.repr).bind parseUnsigned
      = o.bind (parseInRange lo hi) := by
  cases o with
  | none => rfl
  | some v =>
      rw [Option.bind_some, Option.bind_some]
      cases hv : parseInRange lo hi v with
      | none => rfl
      | some n =>
          have := (parseInRange_mem hv).2
          exact parseUnsigned_repr (by omega)

end Transfers

/-- **When unacknowledged options run at the protocol default.** Block size and timeout always
do; the window size falls back to the one of the configuration, so it does exactly when the
request asks for a valid window size or the configured default is `1`. -/
theorem runs_as_acknowledged_iff (env : Env) (config : TftpConfig) (t : Tree) (glob : Glob)
    (order : IterOrder) (data : Bytes) (options : TftpOptions) (negotiated : OptionMap)
    (h : config.Transfers env t glob order data options negotiated) :
    RunsAsAcknowledged options negotiated ↔
      (config.requestedWindowsize data).isSome ∨ config.performance.defaultWindowsize = 1 := by
  obtain ⟨tsize, request, hts, hreq, rfl, rfl⟩ := transfers_negotiate h
  have hrequested : config.requestedWindowsize data
      = (request.options.lookup "windowsize").bind (parseInRange 1 65535) := by
    rw [TftpConfig.requestedWindowsize, hreq]
  have hwin := negotiate_windowsize hts.windowsize config.performance.defaultWindowsize.toNat order
    request.options
  have hoack : ((negotiate tsize config.performance.defaultWindowsize.toNat order
      request.options).negotiated.lookup "windowsize").bind parseUnsigned
        = config.requestedWindowsize data := by
    rw [negotiate_lookup_windowsize hts, bind_parseUnsigned_repr (by decide), hrequested]
  constructor
  · -- without a valid `windowsize` the OACK is silent and the configured default is in force
    intro hr
    have heq := hr.windowsize
    rw [hoack, hwin, ← hrequested] at heq
    cases hcase : config.requestedWindowsize data with
    | some n => exact Or.inl rfl
    | none =>
        rw [hcase] at heq
        exact Or.inr (UInt64.toNat_inj.mp heq)
  · intro hcond
    refine ⟨?_, ?_, ?_⟩
    · rw [negotiate_blockSize hts.blockSize, negotiate_lookup_blksize hts,
        bind_parseUnsigned_repr (by decide)]
      rfl
    · rw [negotiate_timeout hts, negotiate_lookup_timeout hts, bind_parseUnsigned_repr (by decide)]
      rfl
    · rw [hwin, hoack, ← hrequested]
      cases hcase : config.requestedWindowsize data with
      | some n => rfl
      | none =>
          rw [hcase] at hcond
          rcases hcond with hsome | hone
          · cases hsome
          · rw [hone]
            rfl

/-- With the default configuration a request without options runs at the protocol defaults. -/
theorem runs_as_acknowledged_default :
    ∃ options negotiated, (plainConfig 1).Transfers ⟨[], 40⟩ emptyRoot suffixGlob .entries
        (txtReadRequest []) options negotiated ∧
      RunsAsAcknowledged options negotiated := by
  have hread : startedRead (handleClient ⟨[], 40⟩ emptyRoot suffixGlob (plainConfig 1).serverConfig
      .entries (txtReadRequest [])) = some ({}, []) := by
    decide +kernel
  obtain ⟨negotiated, -, p, mode, hstarts⟩ := starts_of_startedRead hread
  have htransfers : (plainConfig 1).Transfers ⟨[], 40⟩ emptyRoot suffixGlob .entries
      (txtReadRequest []) {} negotiated := Or.inl ⟨p, mode, hstarts⟩
  exact ⟨_, negotiated, htransfers,
    (runs_as_acknowledged_iff _ _ _ _ _ _ _ _ htransfers).mpr (Or.inr rfl)⟩

/-- With the accepted default window size `16`, a request without options runs with windows of
sixteen blocks that no OACK announces. -/
theorem unacknowledged_windowsize :
    validateConfig ⟨[], 40⟩ emptyRoot quietProbe (plainConfig 16) true = .ok () ∧
    ∃ options negotiated, (plainConfig 16).Transfers ⟨[], 40⟩ emptyRoot suffixGlob .entries
        (txtReadRequest []) options negotiated ∧
      ¬ RunsAsAcknowledged options negotiated := by
  refine ⟨by decide +kernel, ?_⟩
  have hread : startedRead (handleClient ⟨[], 40⟩ emptyRoot suffixGlob
      (plainConfig 16).serverConfig .entries (txtReadRequest []))
      = some ({ windowsize := 16 }, []) := by
    decide +kernel
  obtain ⟨negotiated, hentries, p, mode, hstarts⟩ := starts_of_startedRead hread
  refine ⟨_, negotiated, Or.inl ⟨p, mode, hstarts⟩, fun h => ?_⟩
  have hnone : negotiated.lookup "windowsize" = none := by
    show negotiated.entries.dlookup "windowsize" = none
    rw [hentries]
    rfl
  have hwin := h.windowsize
  rw [hnone] at hwin
  exact absurd hwin (by decide)

end UsgTftp
