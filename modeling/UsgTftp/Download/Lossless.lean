import UsgTftp.Client.Get
import UsgTftp.Server.Tasks

set_option autoImplicit false

/-! # Downloads over a lossless network

`TftpClient::get` and the server, joined by channels that lose nothing and keep the order. A
run goes through phases: the request, the OACK and its ACK if options were named, and then
window after window, each answered by one ACK. In every phase exactly one side can step, so
every run is the same one, and it ends with the file at the client and nothing sent twice
(`lossless_download`). Block numbers wrap, so files of any length are covered.
-/

namespace UsgTftp

open Reactive Segment SeqNum Posix

/-! ## The request -/

section Request

variable {c : TftpClient}

/-- The options a request names. -/
def TftpClient.optionEntries (c : TftpClient) : List OptionEntry :=
  (if c.blockSize ≠ defaultBlockSize then [⟨"blksize", c.blockSize.repr⟩] else [])
    ++ (if c.windowsize > 1 then [⟨"windowsize", c.windowsize.repr⟩] else [])

/-- The map that the server makes of them. -/
def TftpClient.requestedOptions (c : TftpClient) : OptionMap :=
  c.optionEntries.foldl (fun m e => m.insert (toLowercase e.1) e.2) ∅

theorem optionBytes_eq (c : TftpClient) :
    c.optionBytes = c.optionEntries.flatMap fun o => cstring o.1 ++ cstring o.2 := by
  unfold TftpClient.optionBytes TftpClient.optionEntries
  rw [List.flatMap_append]
  split_ifs <;> simp

/-- The numbers of the client are machine words, and short when they are printed. -/
theorem reads_optionEntries {parse : StringParser} (hparse : ReadsShort parse)
    (hb : c.blockSize < 2 ^ 64) (hW : c.windowsize < 2 ^ 64) :
    ∀ e ∈ c.optionEntries, Reads parse e.1 ∧ Reads parse e.2 := by
  intro e he
  have hblk : Reads parse "blksize" := hparse (by decide) (by decide)
  have hwin : Reads parse "windowsize" := hparse (by decide) (by decide)
  rcases List.mem_append.mp he with he | he
  · split_ifs at he
    · rw [List.mem_singleton.mp he]
      exact ⟨hblk, hparse.repr hb⟩
    · cases he
  · split_ifs at he
    · rw [List.mem_singleton.mp he]
      exact ⟨hwin, hparse.repr hW⟩
    · cases he

theorem parseRequestPacket_rrqPacket {parse : StringParser} (hparse : ReadsShort parse)
    {remoteFile : String} (hb : c.blockSize < 2 ^ 64) (hW : c.windowsize < 2 ^ 64)
    (hnul : 0 ∉ asBytes remoteFile) (hlen : (asBytes remoteFile).length ≤ 254) :
    parseRequestPacket parse (cstring remoteFile ++ (cstring c.mode.modeStr ++ c.optionBytes))
      = .ok ⟨remoteFile, c.mode.modeStr, c.requestedOptions⟩ := by
  rw [parseRequestPacket_cstring (hparse hnul hlen) (hparse.modeStr c.mode), optionBytes_eq,
    parseOptions_entries _ (reads_optionEntries hparse hb hW)]
  rfl

/-- The three lookups that the server makes in it. -/
theorem lookup_requestedOptions (c : TftpClient) :
    c.requestedOptions.lookup "blksize"
      = (if c.blockSize ≠ defaultBlockSize then some c.blockSize.repr else none) ∧
    c.requestedOptions.lookup "windowsize"
      = (if c.windowsize > 1 then some c.windowsize.repr else none) ∧
    "multicast" ∉ c.requestedOptions := by
  have hne : ("blksize" : String) ≠ "windowsize" := by decide
  have hne' : ("windowsize" : String) ≠ "blksize" := by decide
  unfold TftpClient.requestedOptions TftpClient.optionEntries
  split_ifs <;>
    simp [toLowercase_blksize, toLowercase_windowsize, AList.lookup_insert_ne hne,
      AList.lookup_insert_ne hne', AList.mem_insert, -AList.insert_empty]

/-- **The read request is accepted**, with the client's block size and window. -/
theorem handleClient_rrqPacket {env : Env} {t : Tree} {glob : Glob} {config : ServerConfig}
    {order : IterOrder} {remoteFile : String} {p : Path} (hmail : c.mode ≠ .mail)
    (hb : 8 ≤ c.blockSize ∧ c.blockSize ≤ 65464) (hW : 1 ≤ c.windowsize ∧ c.windowsize ≤ 65535)
    (hdefault : c.windowsize > 1 ∨ config.defaultWindowsize = 1)
    (hnul : 0 ∉ asBytes remoteFile) (hlen : (asBytes remoteFile).length ≤ 254)
    (hpath : validateAndResolvePath env t config.rootDir remoteFile = .ok p) :
    ∃ options negotiatedOptions,
      handleClient env t glob config order (c.rrqPacket remoteFile)
        = .ok (.read p c.mode options negotiatedOptions) ∧
      options.blockSize = c.blockSize ∧ options.windowsize = c.windowsize := by
  have hreq := @parseRequestPacket_rrqPacket c parseString readsShort_parseString remoteFile
    (by omega) (by omega) hnul hlen
  obtain ⟨hblk, hwin, hmulti⟩ := lookup_requestedOptions c
  refine ⟨(negotiate tsizeRrq config.defaultWindowsize order c.requestedOptions).options,
    (negotiate tsizeRrq config.defaultWindowsize order c.requestedOptions).negotiated, ?_, ?_, ?_⟩
  · rw [handleClient, TftpClient.rrqPacket, getU16_putU16]
    dsimp only
    rw [Opcode.fromU16_toU16]
    dsimp only
    rw [handleClientRrq, hreq, ok_bind, TransferMode.fromStr_modeStr, ok_bind, if_neg hmail,
      if_neg hmulti, hpath]
    rfl
  -- an option that the client leaves out has the default it assumes
  · rw [negotiate_blockSize (fun acc v => by rw [tsizeRrq_options]), hblk]
    split_ifs with h
    · rw [Option.bind_some, parseInRange_repr hb.1 (show _ ≤ maxBlockSize from hb.2) (by decide)]
      rfl
    · exact (not_not.mp h).symm
  · rw [negotiate_windowsize (fun acc v => by rw [tsizeRrq_options]), hwin]
    split_ifs with h
    · rw [Option.bind_some, parseInRange_repr hW.1 hW.2 (by decide)]
      rfl
    · rw [Option.bind_none, Option.getD_none]
      omega

end Request

/-! ## The client's steps -/

section Client

variable {c : TftpClient} {file : Bytes} {tid : SocketAddr}

/-- The client has written `k` blocks and acknowledged `a` of them, and has nothing in its
buffer. -/
structure ClientIn (b : Nat) (file : Bytes) (tid : SocketAddr) (k a : Nat) (g : GetState) :
    Prop where
  expected : g.expectedBlock = wire (k + 1)
  server : g.serverTid = none ∨ g.serverTid = some tid
  buffer : g.blockBuffer = ∅
  lastAck : g.lastAckSent = wire a
  written : g.written = file.take (k * b)

/-- The step of the loop, once the packet is known to come from the server. -/
theorem getStep_of_clientIn {k a : Nat} {g : GetState} (h : ClientIn c.blockSize file tid k a g)
    (d : Bytes) : ∃ g', ClientIn c.blockSize file tid k a g' ∧ g'.serverTid = some tid ∧
      c.getStep (.receiving g) (.datagram d tid)
        = c.getPacket g' tid (recvInto (c.blockSize + 4) d) := by
  have hclient : ClientIn c.blockSize file tid k a { g with serverTid := some tid } :=
    ⟨h.expected, Or.inr rfl, h.buffer, h.lastAck, h.written⟩
  exact ⟨_, hclient, rfl, getStep_server h.server d⟩

theorem header_buildOackPacket {options : List OptionEntry} (hne : options ≠ []) :
    ∃ field rest, header (buildOackPacket options) = some (Opcode.oack.toU16, field, rest) := by
  cases hh : header (buildOackPacket options) with
  | none =>
      exfalso
      rw [header_eq_none_iff] at hh
      obtain ⟨o, options, rfl⟩ := List.exists_cons_of_ne_nil hne
      rw [buildOackPacket, List.length_append, length_putU16, List.flatMap_cons,
        List.length_append, List.length_append, cstring, cstring, List.length_append,
        List.length_append, List.length_singleton] at hh
      omega
  | some v =>
      obtain ⟨o, field, rest⟩ := v
      exact ⟨field, rest, by rw [header_opcode (getU16_buildOackPacket options) hh]⟩

/-- The OACK is answered with ACK `0`. -/
theorem getStep_oack {g : GetState} (h : ClientIn c.blockSize file tid 0 0 g)
    {options : List OptionEntry} (hne : options ≠ []) :
    ∃ g', ClientIn c.blockSize file tid 0 0 g' ∧
      c.getStep (.receiving g) (.datagram (buildOackPacket options) tid)
        = (.receiving g', [(tid, ackPacket 0)]) := by
  obtain ⟨g', hg', -, hstep⟩ := getStep_of_clientIn h (buildOackPacket options)
  obtain ⟨field, rest, hh⟩ := header_buildOackPacket hne
  refine ⟨{ g' with lastAckSent := 0 },
    ⟨hg'.expected, hg'.server, hg'.buffer, rfl, hg'.written⟩, ?_⟩
  -- the buffer may be shorter than the OACK, but the opcode is all that is read
  rw [hstep, TftpClient.getPacket, header_recvInto (by omega), hh]
  rfl

theorem drain_empty (fuel : Nat) (e : UInt16) (w : Bytes) : drain fuel e ∅ w = (e, ∅, w) := by
  cases fuel <;> rfl

/-- **A DATA packet with the expected number**, when nothing is buffered: what fits the receive
buffer is written, and acknowledged if enough blocks have come since the last ACK or the block
is short. -/
theorem getStep_dataPacket {k a : Nat} {g : GetState} (h : ClientIn c.blockSize file tid k a g)
    (payload : Bytes) :
    let data := payload.take c.blockSize
    let shouldAck := (wire (k + 1) - wire a).toNat ≥ c.windowsize ∨ data.length < c.blockSize
    ∃ g', g'.expectedBlock = wire (k + 1 + 1) ∧ g'.serverTid = some tid ∧ g'.blockBuffer = ∅ ∧
      g'.lastAckSent = wire (if shouldAck then k + 1 else a) ∧
      g'.written = file.take (k * c.blockSize) ++ data ∧
      c.getStep (.receiving g) (.datagram (dataPacket (wire (k + 1)) payload) tid)
        = (if data.length < c.blockSize then .returned (.ok ()) g' else .receiving g',
          if shouldAck then [(tid, ackPacket (wire (k + 1)))] else []) := by
  intro data shouldAck
  obtain ⟨g₁, hg, htid, hstep⟩ := getStep_of_clientIn h (dataPacket (wire (k + 1)) payload)
  -- `blocks_from_last_ack`, modulo `2 ^ 16`
  have hcount : wire (k + 1) + 1 - (wire a + 1) = wire (k + 1) - wire a := by grind
  have hnext : wire (k + 1) + 1 - 1 = wire (k + 1) := by rw [wire_add_one, wire_sub_one]
  have hdata : header (recvInto (c.blockSize + 4) (dataPacket (wire (k + 1)) payload))
      = some (Opcode.data.toU16, wire (k + 1), data) := by
    rw [header_recvInto (by omega), header_dataPacket]
    rfl
  rw [hstep, TftpClient.getPacket, hdata]
  dsimp only
  rw [Opcode.fromU16_toU16]
  dsimp only
  rw [TftpClient.getData, hg.expected, if_neg (UInt16.lt_irrefl _), if_neg (UInt16.lt_irrefl _),
    hg.buffer, drain_empty]
  dsimp only
  rw [hg.lastAck, hg.written, hcount, hnext]
  simp only [decide_eq_true_eq]
  change ∃ g' : GetState, _ ∧ _ ∧ _ ∧ _ ∧ _ ∧
    (if data.length < c.blockSize then
      (GetStatus.returned (.ok ()) (if shouldAck then _ else _), if shouldAck then _ else _)
    else _) = _
  by_cases hack : shouldAck
  · rw [if_pos hack, if_pos hack, if_pos hack]
    refine ⟨⟨wire (k + 1) + 1, g₁.serverTid, ∅, wire (k + 1), _⟩, wire_add_one _, htid, rfl, rfl,
      rfl, ?_⟩
    split_ifs <;> rfl
  · rw [if_neg hack, if_neg hack, if_neg hack]
    refine ⟨⟨wire (k + 1) + 1, g₁.serverTid, ∅, wire a, _⟩, wire_add_one _, htid, rfl, rfl,
      rfl, ?_⟩
    split_ifs <;> rfl

/-- The next block of the file: it is written, and acknowledged if it completes a window or
the file. -/
theorem getStep_segPacket {k a : Nat} {g : GetState} (h : ClientIn c.blockSize file tid k a g)
    (hb : 0 < c.blockSize) (hk : k < blockCount c.blockSize file) (ha : a ≤ k)
    (hka : k < a + c.windowsize) (hW : c.windowsize ≤ 65535) :
    ∃ g', ClientIn c.blockSize file tid (k + 1)
        (if k + 1 = a + c.windowsize ∨ k + 1 = blockCount c.blockSize file then k + 1 else a) g' ∧
      c.getStep (.receiving g) (.datagram (segPacket c.blockSize file k) tid)
        = (if k + 1 = blockCount c.blockSize file then .returned (.ok ()) g' else .receiving g',
          if k + 1 = a + c.windowsize ∨ k + 1 = blockCount c.blockSize file then
            [(tid, ackPacket (wire (k + 1)))] else []) := by
  have htake : (block c.blockSize file k).take c.blockSize = block c.blockSize file k :=
    List.take_of_length_le (length_block_le _ _ _)
  have hfinal := length_block_lt_iff hb file hk
  have hcount : (wire (k + 1) - wire a).toNat = k + 1 - a :=
    toNat_wire_sub_of_le (by omega) (by omega)
  -- the window is not larger than a cycle of block numbers
  have hack : ((wire (k + 1) - wire a).toNat ≥ c.windowsize ∨
      (block c.blockSize file k).length < c.blockSize)
      ↔ (k + 1 = a + c.windowsize ∨ k + 1 = blockCount c.blockSize file) := by
    rw [hfinal, hcount]
    omega
  obtain ⟨g', hexp, htid, hbuf, hlast, hwritten, hstep⟩ :=
    getStep_dataPacket h (block c.blockSize file k)
  rw [htake] at hlast hwritten hstep
  rw [if_congr hack rfl rfl] at hlast
  rw [take_append_block] at hwritten
  refine ⟨g', ⟨hexp, Or.inr htid, hbuf, hlast, hwritten⟩, ?_⟩
  rw [segPacket, hstep, if_congr hack rfl rfl, if_congr hfinal rfl rfl]

end Client

/-! ## The server's steps -/

section Server

variable {file : Bytes} {mode : TransferMode} {source : Source} {options : TftpOptions}
  {pos : Nat} {st : ReadStatus}

/-- What the server reads the data from that it sends: the file, or the conversion of a small
file. -/
inductive ServedFrom (file : Bytes) : TransferMode → Source → Prop where
  | octet : ServedFrom file .octet (.streaming (.regular file))
  | netascii : ServedFrom file .netascii (.buffered file)

/-- The transfer waits for the ACK of the window at `pos`, sent once. -/
inductive Awaiting (b : Nat) (file : Bytes) (W : Nat) : TransferMode → Nat → ReadStatus → Prop where
  | window (pos : Nat) (hpos : pos < blockCount b file) :
      Awaiting b file W .octet pos (.streaming file (streamStatus b file W (.awaiting pos 0)))
  | empty (hfile : file = []) : Awaiting b file W .octet 0 (.streaming file (.awaitingEmpty 0))
  | bufferedWindow (pos : Nat) (hpos : pos < blockCount b file) :
      Awaiting b file W .netascii pos (.buffered file (bufferedStatus b file W (.awaiting pos 0)))
  | bufferedEmpty (hfile : file = []) :
      Awaiting b file W .netascii 0 (.buffered file (.awaitingEmpty 0))

theorem Awaiting.lt {b W : Nat} (h : Awaiting b file W mode pos st) :
    pos < blockCount b file := by
  cases h with
  | window _ hpos => exact hpos
  | empty _ => exact blockCount_pos b file
  | bufferedWindow _ hpos => exact hpos
  | bufferedEmpty _ => exact blockCount_pos b file

/-- The one packet of an empty file is its first window. -/
theorem window_nil {b W : Nat} (hW : 0 < W) :
    WindowSender.window (segPackets b []) W 0 = [emptyFilePacket] := by
  rw [segPackets_nil, WindowSender.window, List.drop_zero, List.take_of_length_le hW]

/-- The sender starts with the first window. -/
theorem startSending_awaiting (hsource : ServedFrom file mode source)
    (hb : 0 < options.blockSize) (hW : 0 < options.windowsize) :
    ∃ st, Awaiting options.blockSize file options.windowsize mode 0 st ∧
      startSending mode options source
        = (st, WindowSender.window (segPackets options.blockSize file) options.windowsize 0) := by
  cases hsource with
  | octet =>
      rw [startSending]
      by_cases hfile : file = []
      · subst hfile
        exact ⟨_, .empty rfl, by rw [window_nil hW]; rfl⟩
      · refine ⟨_, .window 0 (blockCount_pos _ _), ?_⟩
        rw [(streaming_simulates hb hW hfile).start]
        rfl
  | netascii =>
      rw [startSending]
      by_cases hfile : file = []
      · subst hfile
        exact ⟨_, .bufferedEmpty rfl, by rw [window_nil hW]; rfl⟩
      · refine ⟨_, .bufferedWindow 0 (blockCount_pos _ _), ?_⟩
        rw [(buffered_simulates hb hW hfile).start]
        rfl

theorem blockCount_nil (b : Nat) (hfile : file = []) : blockCount b file = 1 := by
  rw [hfile]
  simp [blockCount]

/-- The ACK of a window that is not the last one: the next window is sent. -/
theorem Awaiting.next (h : Awaiting options.blockSize file options.windowsize mode pos st)
    (hb : 0 < options.blockSize) (hW : 0 < options.windowsize)
    (hmore : pos + options.windowsize < blockCount options.blockSize file) :
    ∃ st', Awaiting options.blockSize file options.windowsize mode (pos + options.windowsize) st' ∧
      readRequestStep mode options st (.datagram (ackPacket (wire (pos + options.windowsize))))
        = (st', WindowSender.window (segPackets options.blockSize file) options.windowsize
            (pos + options.windowsize)) := by
  cases h with
  | empty hfile =>
      have := blockCount_nil options.blockSize hfile
      omega
  | bufferedEmpty hfile =>
      have := blockCount_nil options.blockSize hfile
      omega
  | window _ hpos =>
      refine ⟨_, .window _ hmore, ?_⟩
      rw [readRequestStep, streamStatus, sendFileDataStreamingStep_eq hb hW hpos,
        WindowSender.step, if_pos (acked_ackPacket hW hpos (by omega)), length_segPackets,
        if_pos hmore]
  | bufferedWindow _ hpos =>
      refine ⟨_, .bufferedWindow _ hmore, ?_⟩
      rw [readRequestStep, bufferedStatus, sendFileDataBufferedStep_eq hb hW hpos,
        WindowSender.step, if_pos (acked_ackPacket hW hpos (by omega)), length_segPackets,
        if_pos hmore]

/-- The ACK of the last window completes the transfer. -/
theorem Awaiting.last (h : Awaiting options.blockSize file options.windowsize mode pos st)
    (hb : 0 < options.blockSize) (hW : 0 < options.windowsize)
    (hlast : blockCount options.blockSize file ≤ pos + options.windowsize) :
    ∃ st', st'.Completed ∧ readRequestStep mode options st
        (.datagram (ackPacket (wire (blockCount options.blockSize file)))) = (st', []) := by
  cases h with
  | empty hfile =>
      refine ⟨_, .streaming file 0 1, ?_⟩
      rw [blockCount_nil _ hfile, wire_one, readRequestStep, sendFileDataStreamingStep, awaitEmpty,
        waitForAck_ack]
  | bufferedEmpty hfile =>
      refine ⟨_, .buffered file 0 1, ?_⟩
      rw [blockCount_nil _ hfile, wire_one, readRequestStep, sendFileDataBufferedStep, awaitEmpty,
        waitForAck_ack]
  | window _ hpos =>
      refine ⟨_, .streaming file file.length (wire (blockCount options.blockSize file)), ?_⟩
      rw [readRequestStep, streamStatus, sendFileDataStreamingStep_eq hb hW hpos,
        WindowSender.step, if_pos (acked_ackPacket hW hpos (by omega)), length_segPackets,
        if_neg (Nat.not_lt.mpr hlast)]
      rfl
  | bufferedWindow _ hpos =>
      refine ⟨_, .buffered file file.length (wire (blockCount options.blockSize file)), ?_⟩
      rw [readRequestStep, bufferedStatus, sendFileDataBufferedStep_eq hb hW hpos,
        WindowSender.step, if_pos (acked_ackPacket hW hpos (by omega)), length_segPackets,
        if_neg (Nat.not_lt.mpr hlast)]
      rfl

end Server

/-! ## The system -/

/-- The client and the server on lossless channels; what reaches the client carries the
address it was sent from, and what reaches the server the address it was sent to. -/
abbrev LosslessDownload := Fifo GetStatus Server (SocketAddr × Bytes) (SocketAddr × Bytes)

def losslessStart (c : TftpClient) (remoteFile : String) (t : Tree) : LosslessDownload where
  left := (c.get remoteFile).start.1
  right := ⟨t, []⟩
  toLeft := []
  toRight := (c.get remoteFile).start.2
  sent := []

def LosslessStep (c : TftpClient) (host : Host) : LosslessDownload → LosslessDownload → Prop :=
  FifoStep (fun st m => c.getStep st (.datagram m.2 m.1)) (Server.receive host)

/-- What a step can do: one side reads its oldest datagram. -/
theorem losslessStep_cases {c : TftpClient} {host : Host} {l : GetStatus} {r : Server}
    {toL toR sent : List (SocketAddr × Bytes)} {s' : LosslessDownload}
    (h : LosslessStep c host ⟨⟨l, r, toL, toR⟩, sent⟩ s') :
    (∃ m rest, toL = m :: rest ∧ s' = ⟨⟨(c.getStep l (.datagram m.2 m.1)).1, r, rest,
      toR ++ (c.getStep l (.datagram m.2 m.1)).2⟩, sent⟩) ∨
    (∃ m rest, toR = m :: rest ∧ s' = ⟨⟨l, (r.receive host m).1, toL ++ (r.receive host m).2,
      rest⟩, sent ++ (r.receive host m).2⟩) := by
  cases h with
  | left m rest h => exact Or.inl ⟨m, rest, h, rfl⟩
  | right m rest h => exact Or.inr ⟨m, rest, h, rfl⟩

/-- Packets with the address they are sent from. -/
def tagged (tid : SocketAddr) (packets : List Bytes) : List (SocketAddr × Bytes) :=
  packets.map fun d => (tid, d)

section Phases

variable (c : TftpClient) (remoteFile : String) (host : Host) (t : Tree) (file : Bytes)
  (source : Source) (options : TftpOptions) (oack : List OptionEntry) (pre : List Bytes)

/-- The server with its one task. -/
def oneTask (st : ReadStatus) : Server := ⟨t, [⟨host.tids 0, .reading c.mode options st⟩]⟩

/-- What the server has sent once the windows before `n` have been. -/
def sentUpTo (n : Nat) : List (SocketAddr × Bytes) :=
  tagged (host.tids 0) (pre ++ (segPackets c.blockSize file).take n)

/-- **The phases of a download**, each with the number of steps that remain at most. -/
inductive Phase : Nat → LosslessDownload → Prop where
  | request : Phase (2 * blockCount c.blockSize file + 3) (losslessStart c remoteFile t)
  | oackSent (g : GetState) (hoack : oack ≠ []) (hpre : pre = [buildOackPacket oack])
      (hg : ClientIn c.blockSize file (host.tids 0) 0 0 g) :
      Phase (2 * blockCount c.blockSize file + 2)
        ⟨⟨.receiving g, oneTask c host t options (.oackWait source 0),
          tagged (host.tids 0) [buildOackPacket oack], []⟩, sentUpTo c host file pre 0⟩
  | oackAcked (g : GetState) (hg : ClientIn c.blockSize file (host.tids 0) 0 0 g) :
      Phase (2 * blockCount c.blockSize file + 1)
        ⟨⟨.receiving g, oneTask c host t options (.oackWait source 0),
          [], [(host.tids 0, ackPacket 0)]⟩, sentUpTo c host file pre 0⟩
  /-- The client has `j` packets of the window at `pos`. -/
  | data (pos j : Nat) (g : GetState) (st : ReadStatus)
      (hst : Awaiting c.blockSize file c.windowsize c.mode pos st)
      (hj : j < windowLen c.blockSize file c.windowsize pos)
      (hg : ClientIn c.blockSize file (host.tids 0) (pos + j) pos g) :
      Phase (2 * (blockCount c.blockSize file - pos) - j)
        ⟨⟨.receiving g, oneTask c host t options st,
          tagged (host.tids 0)
            ((WindowSender.window (segPackets c.blockSize file) c.windowsize pos).drop j), []⟩,
          sentUpTo c host file pre (pos + c.windowsize)⟩
  | acked (pos : Nat) (g : GetState) (st : ReadStatus)
      (hst : Awaiting c.blockSize file c.windowsize c.mode pos st)
      (hmore : pos + c.windowsize < blockCount c.blockSize file)
      (hg : ClientIn c.blockSize file (host.tids 0) (pos + c.windowsize) (pos + c.windowsize) g) :
      Phase (2 * (blockCount c.blockSize file - pos) - c.windowsize)
        ⟨⟨.receiving g, oneTask c host t options st, [],
          [(host.tids 0, ackPacket (wire (pos + c.windowsize)))]⟩,
          sentUpTo c host file pre (pos + c.windowsize)⟩
  | finalAcked (pos : Nat) (g : GetState) (st : ReadStatus)
      (hst : Awaiting c.blockSize file c.windowsize c.mode pos st)
      (hlast : blockCount c.blockSize file ≤ pos + c.windowsize)
      (hg : ClientIn c.blockSize file (host.tids 0) (blockCount c.blockSize file)
        (blockCount c.blockSize file) g) :
      Phase 1
        ⟨⟨.returned (.ok ()) g, oneTask c host t options st, [],
          [(host.tids 0, ackPacket (wire (blockCount c.blockSize file)))]⟩,
          sentUpTo c host file pre (pos + c.windowsize)⟩
  | done (g : GetState) (st : ReadStatus) (hst : st.Completed)
      (hg : ClientIn c.blockSize file (host.tids 0) (blockCount c.blockSize file)
        (blockCount c.blockSize file) g) :
      Phase 0
        ⟨⟨.returned (.ok ()) g, oneTask c host t options st, [], []⟩,
          sentUpTo c host file pre (blockCount c.blockSize file)⟩

end Phases

/-! ## Steps -/

/-- Octet files are streamed. -/
theorem startReadRequest_octet {mode : TransferMode} {file : Bytes} {max : Nat}
    {order : IterOrder} (hmode : mode = .octet) (hsize : max = 0 ∨ file.length ≤ max)
    (options : TftpOptions) (negotiatedOptions : OptionMap) :
    startReadRequest (some (.regular file)) mode options negotiatedOptions max order
      = sendOack mode options negotiatedOptions order (.streaming (.regular file)) file.length := by
  have hsmall : ¬ (max > 0 ∧ (OpenFile.regular file).len > max) := by
    show ¬ (_ ∧ file.length > _)
    omega
  have hoctet : ¬ (mode = .netascii ∧ (OpenFile.regular file).len ≤ netasciiBufferLimit) := by
    rw [hmode]
    rintro ⟨h, -⟩
    cases h
  rw [startReadRequest]
  dsimp only
  rw [if_neg hsmall, if_neg hoctet]
  rfl

/-- What is left of a window starts with the next packet. -/
theorem drop_window {b W pos j : Nat} {file : Bytes} (hj : j < windowLen b file W pos) :
    (WindowSender.window (segPackets b file) W pos).drop j
      = segPacket b file (pos + j)
        :: (WindowSender.window (segPackets b file) W pos).drop (j + 1) := by
  rw [window_segPackets]
  have hlen : j < ((List.range' pos (windowLen b file W pos)).map (segPacket b file)).length := by
    simpa using hj
  rw [List.drop_eq_getElem_cons hlen]
  simp

theorem drop_window_eq_nil {b W pos j : Nat} {file : Bytes} (hj : windowLen b file W pos ≤ j) :
    (WindowSender.window (segPackets b file) W pos).drop j = [] := by
  rw [window_segPackets]
  apply List.drop_eq_nil_of_le
  simpa using hj

section Steps

variable {c : TftpClient} {remoteFile : String} {host : Host} {t : Tree} {file : Bytes}
  {source : Source} {options : TftpOptions} {oack : List OptionEntry} {pre : List Bytes}

/-- A datagram for the one task. -/
theorem receive_oneTask (htid : host.tids 0 ≠ host.listenAddr) (st : ReadStatus) (d : Bytes) :
    (oneTask c host t options st).receive host (host.tids 0, d)
      = (oneTask c host t options (readRequestStep c.mode options st (.datagram d)).1,
        tagged (host.tids 0) (readRequestStep c.mode options st (.datagram d)).2) := by
  unfold Server.receive
  rw [if_neg htid]
  unfold oneTask deliver
  rw [if_pos rfl]
  rfl

/-- What the request makes of the server. -/
inductive Accepted (c : TftpClient) (remoteFile : String) (host : Host) (t : Tree)
    (source : Source) (options : TftpOptions) (oack : List OptionEntry) : List Bytes → Prop where
  | atOnce (h : host.spawn t (c.rrqPacket remoteFile)
        = (.reading c.mode options (startSending c.mode options source).1,
          (startSending c.mode options source).2)) :
      Accepted c remoteFile host t source options oack []
  | withOack (hne : oack ≠ []) (h : host.spawn t (c.rrqPacket remoteFile)
        = (.reading c.mode options (.oackWait source 0), [buildOackPacket oack])) :
      Accepted c remoteFile host t source options oack [buildOackPacket oack]

theorem take_add_window (ps : List Bytes) (W pos : Nat) :
    ps.take pos ++ WindowSender.window ps W pos = ps.take (pos + W) := by
  rw [WindowSender.window, List.take_add]

/-- The server sends the window at `pos`. -/
theorem sentUpTo_append (pos : Nat) :
    sentUpTo c host file pre pos
        ++ tagged (host.tids 0) (WindowSender.window (segPackets c.blockSize file) c.windowsize pos)
      = sentUpTo c host file pre (pos + c.windowsize) := by
  rw [sentUpTo, sentUpTo, tagged, tagged, tagged, ← List.map_append, List.append_assoc,
    take_add_window]

theorem clientIn_start (b : Nat) (file : Bytes) (tid : SocketAddr) :
    ClientIn b file tid 0 0 {} where
  expected := rfl
  server := Or.inl rfl
  buffer := rfl
  lastAck := rfl
  written := by rw [Nat.zero_mul, List.take_zero]

section

variable (hW : 1 ≤ c.windowsize ∧ c.windowsize ≤ 65535)

include hW

/-- The window at `pos` has been sent. -/
theorem phase_window {pos : Nat} {g : GetState} {st : ReadStatus}
    (hst : Awaiting c.blockSize file c.windowsize c.mode pos st)
    (hg : ClientIn c.blockSize file (host.tids 0) pos pos g) :
    Phase c remoteFile host t file source options oack pre (2 * (blockCount c.blockSize file - pos))
      ⟨⟨.receiving g, oneTask c host t options st,
        tagged (host.tids 0) (WindowSender.window (segPackets c.blockSize file) c.windowsize pos),
        []⟩, sentUpTo c host file pre (pos + c.windowsize)⟩ :=
  .data pos 0 g st hst (windowLen_pos hW.1 hst.lt) hg

/-- The request reaches the server. -/
theorem request_step (hsource : ServedFrom file c.mode source) (hb : 8 ≤ c.blockSize)
    (hlisten : c.serverAddr = host.listenAddr)
    (hfits : (c.rrqPacket remoteFile).length ≤ maxPacketSize)
    (hblock : options.blockSize = c.blockSize) (hwindow : options.windowsize = c.windowsize)
    (haccept : Accepted c remoteFile host t source options oack pre) {s' : LosslessDownload}
    (hstep : LosslessStep c host (losslessStart c remoteFile t) s') :
    ∃ m, m < 2 * blockCount c.blockSize file + 3 ∧
      Phase c remoteFile host t file source options oack pre m s' := by
  -- the request reaches the listening address and starts the first task
  have hreceive : Server.receive host ⟨t, []⟩ (c.serverAddr, c.rrqPacket remoteFile)
      = (⟨t, [⟨host.tids 0, (host.spawn t (c.rrqPacket remoteFile)).1⟩]⟩,
        tagged (host.tids 0) (host.spawn t (c.rrqPacket remoteFile)).2) := by
    unfold Server.receive
    rw [if_pos hlisten, recvInto_of_le hfits]
    rfl
  have hg := clientIn_start c.blockSize file (host.tids 0)
  rcases losslessStep_cases hstep with ⟨m, rest, h, -⟩ | ⟨m, rest, h, rfl⟩
  · cases h
  cases h
  rw [hreceive]
  cases haccept with
  | atOnce h =>
      obtain ⟨st, hst, hstart⟩ :=
        @startSending_awaiting file c.mode source options hsource (by omega) (by omega)
      rw [h, hstart]
      rw [hblock, hwindow] at hst ⊢
      refine ⟨2 * (blockCount c.blockSize file - 0), by omega, ?_⟩
      have hsent : tagged (host.tids 0)
          (WindowSender.window (segPackets c.blockSize file) c.windowsize 0)
          = sentUpTo c host file [] (0 + c.windowsize) := by
        rw [← sentUpTo_append, sentUpTo, List.take_zero]
        rfl
      have hphase := @phase_window c remoteFile host t file source options oack [] hW 0 {} st hst hg
      rwa [← hsent] at hphase
  | withOack hne h =>
      rw [h]
      refine ⟨2 * blockCount c.blockSize file + 2, by omega, ?_⟩
      have hphase := @Phase.oackSent c remoteFile host t file source options oack _ {} hne rfl hg
      rwa [sentUpTo, List.take_zero, List.append_nil] at hphase

/-- The OACK and its ACK. -/
theorem oack_step (hsource : ServedFrom file c.mode source) (hb : 8 ≤ c.blockSize)
    (htid : host.tids 0 ≠ host.listenAddr)
    (hblock : options.blockSize = c.blockSize) (hwindow : options.windowsize = c.windowsize)
    {g : GetState} (hg : ClientIn c.blockSize file (host.tids 0) 0 0 g) {s' : LosslessDownload}
    (hstep : LosslessStep c host
      ⟨⟨.receiving g, oneTask c host t options (.oackWait source 0),
        [], [(host.tids 0, ackPacket 0)]⟩, sentUpTo c host file pre 0⟩ s') :
    Phase c remoteFile host t file source options oack pre (2 * (blockCount c.blockSize file - 0))
      s' := by
  rcases losslessStep_cases hstep with ⟨m, rest, h, -⟩ | ⟨m, rest, h, rfl⟩
  · cases h
  cases h
  obtain ⟨st, hst, hstart⟩ :=
    @startSending_awaiting file c.mode source options hsource (by omega) (by omega)
  rw [receive_oneTask htid, readRequestStep, waitForAck_ack]
  dsimp only
  rw [hstart]
  rw [hblock, hwindow] at hst ⊢
  rw [sentUpTo_append 0]
  exact phase_window hW hst hg

/-- A packet of a window reaches the client. -/
theorem data_step (hb : 8 ≤ c.blockSize) {pos j : Nat} {g : GetState} {st : ReadStatus}
    (hst : Awaiting c.blockSize file c.windowsize c.mode pos st)
    (hj : j < windowLen c.blockSize file c.windowsize pos)
    (hg : ClientIn c.blockSize file (host.tids 0) (pos + j) pos g) {s' : LosslessDownload}
    (hstep : LosslessStep c host
      ⟨⟨.receiving g, oneTask c host t options st,
        tagged (host.tids 0)
          ((WindowSender.window (segPackets c.blockSize file) c.windowsize pos).drop j), []⟩,
        sentUpTo c host file pre (pos + c.windowsize)⟩ s') :
    ∃ m, m < 2 * (blockCount c.blockSize file - pos) - j ∧
      Phase c remoteFile host t file source options oack pre m s' := by
  have hj' := hj
  unfold windowLen at hj'
  rw [drop_window hj] at hstep
  obtain ⟨g', hg', hget⟩ := getStep_segPacket hg (by omega) (by omega) (by omega) (by omega) hW.2
  rcases losslessStep_cases hstep with ⟨m, rest, h, rfl⟩ | ⟨m, rest, h, -⟩
  · cases h
    dsimp only
    rw [hget]
    dsimp only
    by_cases hlast : pos + j + 1 = blockCount c.blockSize file
    · -- the last block of the file
      rw [if_pos (Or.inr hlast), hlast] at hg'
      rw [if_pos hlast, if_pos (Or.inr hlast), drop_window_eq_nil (by unfold windowLen; omega),
        hlast]
      exact ⟨1, by omega, .finalAcked pos g' st hst (by omega) hg'⟩
    · rw [if_neg hlast]
      by_cases hfull : pos + j + 1 = pos + c.windowsize
      · -- the last block of the window
        rw [if_pos (Or.inl hfull), hfull] at hg'
        rw [if_pos (Or.inl hfull), drop_window_eq_nil (by unfold windowLen; omega), hfull]
        exact ⟨_, by omega, .acked pos g' st hst (by omega) hg'⟩
      · have hno : ¬ (pos + j + 1 = pos + c.windowsize ∨
            pos + j + 1 = blockCount c.blockSize file) := by omega
        rw [if_neg hno] at hg'
        rw [if_neg hno]
        exact ⟨_, by omega, .data pos (j + 1) g' st hst (by unfold windowLen; omega) hg'⟩
  · cases h

/-- The ACK of a window reaches the server. -/
theorem acked_step (hb : 8 ≤ c.blockSize) (htid : host.tids 0 ≠ host.listenAddr)
    (hblock : options.blockSize = c.blockSize) (hwindow : options.windowsize = c.windowsize)
    {pos : Nat} {g : GetState} {st : ReadStatus}
    (hst : Awaiting c.blockSize file c.windowsize c.mode pos st)
    (hmore : pos + c.windowsize < blockCount c.blockSize file)
    (hg : ClientIn c.blockSize file (host.tids 0) (pos + c.windowsize) (pos + c.windowsize) g)
    {s' : LosslessDownload}
    (hstep : LosslessStep c host
      ⟨⟨.receiving g, oneTask c host t options st, [],
        [(host.tids 0, ackPacket (wire (pos + c.windowsize)))]⟩,
        sentUpTo c host file pre (pos + c.windowsize)⟩ s') :
    Phase c remoteFile host t file source options oack pre
      (2 * (blockCount c.blockSize file - (pos + c.windowsize))) s' := by
  rcases losslessStep_cases hstep with ⟨m, rest, h, -⟩ | ⟨m, rest, h, rfl⟩
  · cases h
  cases h
  rw [← hblock, ← hwindow] at hst hmore
  obtain ⟨st', hst', hnext⟩ := hst.next (by omega) (by omega) hmore
  rw [hblock, hwindow] at hst' hnext
  rw [receive_oneTask htid, hnext]
  dsimp only
  rw [sentUpTo_append]
  exact phase_window hW hst' hg

end

/-- The ACK of the last window reaches the server. -/
theorem final_step (hb : 8 ≤ c.blockSize) (hW : 1 ≤ c.windowsize)
    (htid : host.tids 0 ≠ host.listenAddr) (hblock : options.blockSize = c.blockSize)
    (hwindow : options.windowsize = c.windowsize) {pos : Nat} {g : GetState} {st : ReadStatus}
    (hst : Awaiting c.blockSize file c.windowsize c.mode pos st)
    (hlast : blockCount c.blockSize file ≤ pos + c.windowsize)
    (hg : ClientIn c.blockSize file (host.tids 0) (blockCount c.blockSize file)
      (blockCount c.blockSize file) g) {s' : LosslessDownload}
    (hstep : LosslessStep c host
      ⟨⟨.returned (.ok ()) g, oneTask c host t options st, [],
        [(host.tids 0, ackPacket (wire (blockCount c.blockSize file)))]⟩,
        sentUpTo c host file pre (pos + c.windowsize)⟩ s') :
    Phase c remoteFile host t file source options oack pre 0 s' := by
  rcases losslessStep_cases hstep with ⟨m, rest, h, -⟩ | ⟨m, rest, h, rfl⟩
  · cases h
  cases h
  rw [← hblock, ← hwindow] at hst hlast
  obtain ⟨st', hdone, hnext⟩ := hst.last (by omega) (by omega) hlast
  rw [hblock] at hnext
  rw [hblock, hwindow] at hlast
  -- the last window may be cut short by the end of the file
  have hall : sentUpTo c host file pre (pos + c.windowsize)
      = sentUpTo c host file pre (blockCount c.blockSize file) := by
    unfold sentUpTo
    rw [List.take_of_length_le (by rw [length_segPackets]; exact hlast),
      List.take_of_length_le (by rw [length_segPackets])]
  rw [receive_oneTask htid, hnext, hall]
  simp only [tagged, List.map_nil, List.append_nil]
  exact .done g st' hdone hg

/-- **Step lemma.** Every step leads to a phase with fewer steps to go. -/
theorem phase_step (hsource : ServedFrom file c.mode source) (hb : 8 ≤ c.blockSize)
    (hW : 1 ≤ c.windowsize ∧ c.windowsize ≤ 65535)
    (hlisten : c.serverAddr = host.listenAddr) (htid : host.tids 0 ≠ host.listenAddr)
    (hfits : (c.rrqPacket remoteFile).length ≤ maxPacketSize)
    (hblock : options.blockSize = c.blockSize) (hwindow : options.windowsize = c.windowsize)
    (haccept : Accepted c remoteFile host t source options oack pre) (n : Nat)
    (s s' : LosslessDownload) (hs : Phase c remoteFile host t file source options oack pre n s)
    (hstep : LosslessStep c host s s') :
    ∃ m, m < n ∧ Phase c remoteFile host t file source options oack pre m s' := by
  cases hs with
  | request => exact request_step hW hsource hb hlisten hfits hblock hwindow haccept hstep
  | oackSent g hoack hpre hg =>
      obtain ⟨g', hg', hget⟩ := getStep_oack hg hoack
      rcases losslessStep_cases hstep with ⟨m, rest, h, rfl⟩ | ⟨m, rest, h, -⟩
      · cases h
        dsimp only
        rw [hget]
        exact ⟨_, by omega, .oackAcked g' hg'⟩
      · cases h
  | oackAcked g hg =>
      exact ⟨_, by omega, oack_step hW hsource hb htid hblock hwindow hg hstep⟩
  | data pos j g st hst hj hg => exact data_step hW hb hst hj hg hstep
  | acked pos g st hst hmore hg =>
      exact ⟨_, by omega, acked_step hW hb htid hblock hwindow hst hmore hg hstep⟩
  | finalAcked pos g st hst hlast hg =>
      exact ⟨0, by omega, final_step hb hW.1 htid hblock hwindow hst hlast hg hstep⟩
  | done g st hst hg =>
      rcases losslessStep_cases hstep with ⟨m, rest, h, -⟩ | ⟨m, rest, h, -⟩
      · cases h
      · cases h

/-- In every phase but the last some step is possible. -/
theorem Phase.progress {n : Nat} {s : LosslessDownload}
    (hs : Phase c remoteFile host t file source options oack pre n s)
    (hstuck : ∀ s', ¬ LosslessStep c host s s') :
    ∃ g st, st.Completed ∧ g.written = file.take (blockCount c.blockSize file * c.blockSize) ∧
      s = ⟨⟨.returned (.ok ()) g, oneTask c host t options st, [], []⟩,
        sentUpTo c host file pre (blockCount c.blockSize file)⟩ := by
  cases hs with
  | request => exact absurd (FifoStep.right _ _ _ rfl) (hstuck _)
  | oackSent g hoack hpre hg => exact absurd (FifoStep.left _ _ _ rfl) (hstuck _)
  | oackAcked g hg => exact absurd (FifoStep.right _ _ _ rfl) (hstuck _)
  | data pos j g st hst hj hg =>
      rw [drop_window hj] at hstuck
      exact absurd (FifoStep.left _ _ _ rfl) (hstuck _)
  | acked pos g st hst hmore hg => exact absurd (FifoStep.right _ _ _ rfl) (hstuck _)
  | finalAcked pos g st hst hlast hg => exact absurd (FifoStep.right _ _ _ rfl) (hstuck _)
  | done g st hst hg => exact ⟨g, st, hst, hg.written, rfl⟩

theorem length_rrqPacket_le (hb : c.blockSize ≤ 65464) (hW : c.windowsize ≤ 65535)
    (hlen : (asBytes remoteFile).length ≤ 254) :
    (c.rrqPacket remoteFile).length ≤ maxPacketSize := by
  have hblk := (asBytes_repr (n := c.blockSize) (by omega)).2
  have hwin := (asBytes_repr (n := c.windowsize) (by omega)).2
  have hoptions : c.optionBytes.length ≤ 600 := by
    have hname : (cstring "blksize").length = 8 := by decide
    have hname' : (cstring "windowsize").length = 11 := by decide
    have hvalue : ∀ s, (cstring s).length = (asBytes s).length + 1 := fun s => by simp [cstring]
    unfold TftpClient.optionBytes
    rw [List.length_append]
    split_ifs <;> simp only [List.length_append, hname, hname', hvalue, List.length_nil] <;> omega
  have hmodeLen : (cstring c.mode.modeStr).length ≤ 9 := by
    cases c.mode <;> decide
  simp only [TftpClient.rrqPacket, List.length_append, length_putU16, cstring,
    List.length_singleton] at hmodeLen ⊢
  unfold maxPacketSize
  omega

/-- The server accepts the request, with the options the client named; `source` and `tsize` are
what the branch for the mode and the size of the file gives. -/
theorem accepted_rrqPacket {p : Path} {opened : OpenFile} {tsize : Nat} (hmail : c.mode ≠ .mail)
    (hb : 8 ≤ c.blockSize ∧ c.blockSize ≤ 65464) (hW : 1 ≤ c.windowsize ∧ c.windowsize ≤ 65535)
    (hdefault : c.windowsize > 1 ∨ host.config.defaultWindowsize = 1)
    (hnul : 0 ∉ asBytes remoteFile) (hlen : (asBytes remoteFile).length ≤ 254)
    (hpath : validateAndResolvePath host.env t host.config.rootDir remoteFile = .ok p)
    (hopen : host.openFile t p = some opened)
    (hstart : ∀ options negotiatedOptions, startReadRequest (some opened) c.mode options
      negotiatedOptions host.config.maxFileSizeBytes host.order
        = sendOack c.mode options negotiatedOptions host.order source tsize) :
    ∃ options oack pre, options.blockSize = c.blockSize ∧ options.windowsize = c.windowsize ∧
      Accepted c remoteFile host t source options oack pre := by
  obtain ⟨options, negotiatedOptions, hhandle, hblock, hwindow⟩ :=
    @handleClient_rrqPacket c host.env t host.glob host.config host.order remoteFile p hmail hb hW
      hdefault hnul hlen hpath
  have hspawn : host.spawn t (c.rrqPacket remoteFile)
      = (.reading c.mode options
          (sendOack c.mode options negotiatedOptions host.order source tsize).1,
        (sendOack c.mode options negotiatedOptions host.order source tsize).2) := by
    rw [Host.spawn, hhandle]
    dsimp only [handleReadRequest]
    rw [hopen, hstart]
  -- an OACK is sent if an option was granted
  unfold sendOack at hspawn
  generalize (if "tsize" ∈ negotiatedOptions then
    negotiatedOptions.insert "tsize" tsize.repr else negotiatedOptions) = negotiated at hspawn
  by_cases hnone : negotiated.entries = []
  · rw [if_pos hnone] at hspawn
    exact ⟨options, [], [], hblock, hwindow, .atOnce hspawn⟩
  · rw [if_neg hnone] at hspawn
    refine ⟨options, host.order.iter negotiated, _, hblock, hwindow, .withOack ?_ hspawn⟩
    intro hnil
    have := host.order.perm negotiated
    rw [hnil] at this
    exact hnone this.symm.eq_nil

/-- **Run lemma.** Once the request is accepted every run ends, with the data that the server
sends at the client. -/
theorem run_of_accepted (hsource : ServedFrom file c.mode source)
    (hb : 8 ≤ c.blockSize ∧ c.blockSize ≤ 65464) (hW : 1 ≤ c.windowsize ∧ c.windowsize ≤ 65535)
    (hlisten : c.serverAddr = host.listenAddr) (htid : host.tids 0 ≠ host.listenAddr)
    (hlen : (asBytes remoteFile).length ≤ 254)
    (hblock : options.blockSize = c.blockSize) (hwindow : options.windowsize = c.windowsize)
    (haccept : Accepted c remoteFile host t source options oack pre) :
    Acc (fun s' s => LosslessStep c host s s') (losslessStart c remoteFile t) ∧
    ∀ s, Relation.ReflTransGen (LosslessStep c host) (losslessStart c remoteFile t) s →
      (∀ s', ¬ LosslessStep c host s s') →
      ∃ g st, s.left = .returned (.ok ()) g ∧ g.written = file ∧
        s.right.tasks = [⟨host.tids 0, .reading c.mode options st⟩] ∧ st.Completed ∧
        (pre = [] ∨ pre = [buildOackPacket oack]) ∧
        s.sent = tagged (host.tids 0) (pre ++ segPackets c.blockSize file) := by
  have hfits := @length_rrqPacket_le c remoteFile hb.2 hW.2 hlen
  have hstep := @phase_step c remoteFile host t file source options oack pre hsource hb.1 hW
    hlisten htid hfits hblock hwindow haccept
  -- the rank falls with every step, and every state that is reached is in a phase
  refine ⟨acc_of_ranked (Phase c remoteFile host t file source options oack pre) hstep _ _
    .request, ?_⟩
  intro s hs hstuck
  obtain ⟨n, hn⟩ : ∃ n, Phase c remoteFile host t file source options oack pre n s := by
    refine invariant_of_step
      (fun s => ∃ n, Phase c remoteFile host t file source options oack pre n s) ?_ ⟨_, .request⟩ hs
    rintro s s' ⟨n, hn⟩ hss
    obtain ⟨m, -, hm⟩ := hstep n s s' hn hss
    exact ⟨m, hm⟩
  obtain ⟨g, st, hdone, hwritten, rfl⟩ := hn.progress hstuck
  refine ⟨g, st, rfl, ?_, rfl, hdone, ?_, ?_⟩
  · rw [hwritten, take_blockCount_mul (by omega)]
  · cases haccept with
    | atOnce _ => exact Or.inl rfl
    | withOack _ _ => exact Or.inr rfl
  · show sentUpTo c host file pre _ = _
    rw [sentUpTo, List.take_of_length_le (by rw [length_segPackets])]

end Steps

/-- **Lossless download.** Every run ends, and it ends with `get` having returned `Ok` and
written the file, and with the server's transfer completed after it has sent each DATA packet
of the file once, in order, behind an OACK at most. -/
theorem lossless_download (c : TftpClient) (remoteFile : String) (host : Host) (t : Tree)
    (p : Path) (file : Bytes) (hmode : c.mode = .octet)
    (hb : 8 ≤ c.blockSize ∧ c.blockSize ≤ 65464) (hW : 1 ≤ c.windowsize ∧ c.windowsize ≤ 65535)
    (hlisten : c.serverAddr = host.listenAddr) (htid : host.tids 0 ≠ host.listenAddr)
    (hdefault : host.config.defaultWindowsize = 1) (hnul : 0 ∉ asBytes remoteFile)
    (hlen : (asBytes remoteFile).length ≤ 254)
    (hpath : validateAndResolvePath host.env t host.config.rootDir remoteFile = .ok p)
    (hopen : host.openFile t p = some (.regular file))
    (hsize : host.config.maxFileSizeBytes = 0 ∨ file.length ≤ host.config.maxFileSizeBytes) :
    Acc (fun s' s => LosslessStep c host s s') (losslessStart c remoteFile t) ∧
    ∀ s, Relation.ReflTransGen (LosslessStep c host) (losslessStart c remoteFile t) s →
      (∀ s', ¬ LosslessStep c host s s') →
      ∃ g st options pre, s.left = .returned (.ok ()) g ∧ g.written = file ∧
        s.right.tasks = [⟨host.tids 0, .reading .octet options st⟩] ∧ st.Completed ∧
        (pre = [] ∨ ∃ oack, pre = [buildOackPacket oack]) ∧
        s.sent = tagged (host.tids 0) (pre ++ segPackets c.blockSize file) := by
  have hsource : ServedFrom file c.mode (.streaming (.regular file)) := by
    rw [hmode]
    exact .octet
  obtain ⟨options, oack, pre, hblock, hwindow, haccept⟩ :=
    @accepted_rrqPacket c remoteFile host t (.streaming (.regular file)) p _ file.length
      (by rw [hmode]; decide) hb hW (Or.inr hdefault) hnul hlen hpath hopen
      (startReadRequest_octet hmode hsize)
  obtain ⟨hacc, hend⟩ :=
    run_of_accepted hsource hb hW hlisten htid hlen hblock hwindow haccept
  refine ⟨hacc, ?_⟩
  intro s hs hstuck
  obtain ⟨g, st, hleft, hwritten, htasks, hdone, hpre, hsent⟩ := hend s hs hstuck
  rw [hmode] at htasks
  refine ⟨g, st, options, pre, hleft, hwritten, htasks, hdone, ?_, hsent⟩
  rcases hpre with rfl | rfl
  · exact Or.inl rfl
  · exact Or.inr ⟨oack, rfl⟩

/-- The file `a.txt` with nine bytes. -/
def nineBytes : Posix.Tree :=
  (emptyRoot.addFile ["srv", "tftp"] "a.txt").setContent 0 [1, 2, 3, 4, 5, 6, 7, 8, 9]

/-- Two blocks in one window. -/
theorem lossless_download_nine_bytes :
    let c : TftpClient := ⟨⟨.v4 0, 69⟩, .octet, 8, 2⟩
    Acc (fun s' s => LosslessStep c txtHost s s') (losslessStart c "a.txt" nineBytes) ∧
    ∀ s, Relation.ReflTransGen (LosslessStep c txtHost) (losslessStart c "a.txt" nineBytes) s →
      (∀ s', ¬ LosslessStep c txtHost s s') →
      ∃ g, s.left = .returned (.ok ()) g ∧ g.written = [1, 2, 3, 4, 5, 6, 7, 8, 9] := by
  intro c
  have hpath : validateAndResolvePath txtHost.env nineBytes txtHost.config.rootDir "a.txt"
      = .ok (Path.ofString "/srv/tftp/a.txt") := by decide +kernel
  have hopen : txtHost.openFile nineBytes (Path.ofString "/srv/tftp/a.txt")
      = some (.regular [1, 2, 3, 4, 5, 6, 7, 8, 9]) := by decide +kernel
  obtain ⟨hacc, hend⟩ := lossless_download c "a.txt" txtHost nineBytes _ _ rfl (by decide)
    (by decide) rfl (by decide) rfl (by decide) (by decide) hpath hopen (Or.inl rfl)
  refine ⟨hacc, fun s hs hstuck => ?_⟩
  obtain ⟨g, -, -, -, hleft, hwritten, -⟩ := hend s hs hstuck
  exact ⟨g, hleft, hwritten⟩

end UsgTftp
