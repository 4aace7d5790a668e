import UsgTftp.Client.Get
import UsgTftp.Server.Read

set_option autoImplicit false

/-! # Download agreement on an arbitrary network

The client's `get` and the server's `handle_read_request` joined by a network that loses,
duplicates and reorders datagrams, with timers that fire at any time. The invariant
`Agreement` says how far the client is (`k` blocks written) and that every packet ever sent
is truthful: a DATA packet is one of the segmentation, and an ACK has a number of at most
`k`. It needs no assumption on how the two sides' steps interleave, and none on the client's
window size.
-/

namespace UsgTftp

open Reactive Segment SeqNum

/-! ## The client's side -/

section Client

variable {b : Nat} {file : Bytes} {k : Nat}

/-- The client has written the first `k` blocks and has buffered blocks of the file only. -/
structure ClientAt (b : Nat) (file : Bytes) (k : Nat) (g : GetState) : Prop where
  written : g.written = file.take (k * b)
  expected : g.expectedBlock = wire (k + 1)
  lastAck : g.lastAckSent.toNat ≤ k
  buffered : ∀ n d, g.blockBuffer.lookup n = some d →
    ∃ i, i < blockCount b file ∧ n = wire (i + 1) ∧ d = block b file i

/-- If `d` is a DATA packet, then it belongs to the segmentation of the file. -/
def TruthfulData (b : Nat) (file : Bytes) (d : Bytes) : Prop :=
  ∀ n payload, header d = some (Opcode.data.toU16, n, payload) →
    ∃ i, i < blockCount b file ∧ n = wire (i + 1) ∧ payload = block b file i

/-- If `d` is an ACK packet, then its number is at most `k`. -/
def TruthfulAck (k : Nat) (d : Bytes) : Prop :=
  ∀ n rest, header d = some (Opcode.ack.toU16, n, rest) → n.toNat ≤ k

theorem truthfulAck_ackPacket {n : UInt16} (h : n.toNat ≤ k) : TruthfulAck k (ackPacket n) := by
  intro m rest hm
  rw [header_ackPacket] at hm
  cases hm
  exact h

theorem TruthfulAck.mono {k' : Nat} {d : Bytes} (h : TruthfulAck k d) (hk : k ≤ k') :
    TruthfulAck k' d :=
  fun n rest hn => Nat.le_trans (h n rest hn) hk

/-- What a step of the client may do: go on to `k'` blocks and send truthful ACKs. -/
def ClientMoves (b : Nat) (file : Bytes) (k : Nat)
    (next : GetStatus × List (SocketAddr × Bytes)) : Prop :=
  ∃ k', k ≤ k' ∧ k' ≤ blockCount b file ∧ ClientAt b file k' next.1.state ∧
    ∀ m ∈ next.2, TruthfulAck k' m.2

theorem ClientAt.stays {next : GetStatus × List (SocketAddr × Bytes)} (hk : k ≤ blockCount b file)
    (h : ClientAt b file k next.1.state) (hout : ∀ m ∈ next.2, TruthfulAck k m.2) :
    ClientMoves b file k next :=
  ⟨k, Nat.le_refl _, hk, h, hout⟩

/-- A block that is buffered keeps the buffer truthful. -/
theorem ClientAt.insert {g : GetState} (h : ClientAt b file k g) {i : Nat}
    (hi : i < blockCount b file) :
    ClientAt b file k { g with
      blockBuffer := g.blockBuffer.insert (wire (i + 1)) (block b file i) } where
  written := h.written
  expected := h.expected
  lastAck := h.lastAck
  buffered := by
    intro n d hn
    by_cases hne : n = wire (i + 1)
    · rw [hne, AList.lookup_insert] at hn
      cases hn
      exact ⟨i, hi, hne, rfl⟩
    · rw [AList.lookup_insert_ne hne] at hn
      exact h.buffered n d hn

/-- **A DATA packet of the file** moves the client on, or leaves it where it is. -/
theorem ClientAt.getData {c : TftpClient} {g : GetState} (h : ClientAt b file k g)
    (hk : k ≤ blockCount b file) (hN : blockCount b file ≤ 65535) (tid : SocketAddr) {i : Nat}
    (hi : i < blockCount b file) :
    ClientMoves b file k (c.getData g tid (wire (i + 1)) (block b file i)) := by
  rw [TftpClient.getData]
  split_ifs with hlt hgt
  · refine ClientAt.stays hk h ?_
    intro m hm
    rw [List.mem_singleton.mp hm]
    exact truthfulAck_ackPacket h.lastAck
  · exact ClientAt.stays hk (h.insert hi) (by intro m hm; cases hm)
  -- neither smaller nor greater: the expected block, with all that waits behind it
  · have heq : wire (i + 1) = wire (k + 1) := by
      rw [← h.expected, ← UInt16.toNat_inj]
      rw [UInt16.lt_iff_toNat_lt] at hlt
      rw [gt_iff_lt, UInt16.lt_iff_toNat_lt] at hgt
      omega
    have hik : i = k := by
      have := (wire_inj (by omega) (by omega)).mp heq
      omega
    subst hik
    obtain ⟨k', hk', hk'N, hexp, hwritten, hbuf⟩ :=
      drain_spec (by omega : blockCount b file < 65536) (take_append_block b file)
        g.blockBuffer.keys.length (i + 1) g.blockBuffer (by omega) h.buffered
    have hstart : g.expectedBlock + 1 = wire (i + 1 + 1) := by rw [h.expected, wire_add_one]
    have hdata : g.written ++ block b file i = file.take ((i + 1) * b) := by
      rw [h.written, take_append_block]
    have hack : (wire (k' + 1) - 1).toNat ≤ k' := by
      rw [wire_sub_one, toNat_wire_of_lt (by omega)]
    rw [hstart, hdata]
    generalize drain g.blockBuffer.keys.length (wire (i + 1 + 1)) g.blockBuffer
      (file.take ((i + 1) * b)) = r at hexp hwritten hbuf
    obtain ⟨e, buffer, w⟩ := r
    simp only at hexp hwritten hbuf
    subst hexp hwritten
    have hlookup : ∀ n d, buffer.lookup n = some d →
        ∃ j, j < blockCount b file ∧ n = wire (j + 1) ∧ d = block b file j :=
      fun n d hn => h.buffered n d (hbuf n d hn)
    have hold : g.lastAckSent.toNat ≤ k' := Nat.le_trans h.lastAck (by omega)
    refine ⟨k', by omega, hk'N, ?_, ?_⟩
    · -- the four cases are: acknowledged or not, final or not
      simp only
      split_ifs
      · exact ⟨rfl, rfl, hack, hlookup⟩
      · exact ⟨rfl, rfl, hold, hlookup⟩
      · exact ⟨rfl, rfl, hack, hlookup⟩
      · exact ⟨rfl, rfl, hold, hlookup⟩
    · simp only
      intro m hm
      have hm' : m = (tid, ackPacket (wire (k' + 1) - 1)) := by
        split_ifs at hm <;> simp_all
      rw [hm']
      exact truthfulAck_ackPacket hack

theorem ClientAt.getPacket {c : TftpClient} {g : GetState} (h : ClientAt b file k g)
    (hk : k ≤ blockCount b file) (hN : blockCount b file ≤ 65535) (tid : SocketAddr) {d : Bytes}
    (hd : TruthfulData b file d) : ClientMoves b file k (c.getPacket g tid d) := by
  rw [TftpClient.getPacket]
  cases hh : header d with
  | none => exact ClientAt.stays hk h (by intro m hm; cases hm)
  | some v =>
      obtain ⟨opcode, field, rest⟩ := v
      simp only
      split
      · rename_i hop
        have hdata : opcode = Opcode.data.toU16 := Opcode.eq_toU16_of_fromU16 hop
        subst hdata
        obtain ⟨i, hi, rfl, rfl⟩ := hd field rest hh
        exact h.getData hk hN tid hi
      · exact ClientAt.stays hk h (by intro m hm; cases hm)
      · refine ClientAt.stays hk ⟨h.written, h.expected, Nat.zero_le _, h.buffered⟩ ?_
        intro m hm
        rw [List.mem_singleton.mp hm]
        exact truthfulAck_ackPacket (Nat.zero_le _)
      · exact ClientAt.stays hk h (by intro m hm; cases hm)

theorem truthfulData_recvInto {d : Bytes} (hd : TruthfulData b file d) :
    TruthfulData b file (recvInto (b + 4) d) := by
  intro n payload hn
  rw [header_recvInto (by omega)] at hn
  cases hh : header d with
  | none => rw [hh] at hn; cases hn
  | some v =>
      obtain ⟨opcode, field, rest⟩ := v
      rw [hh] at hn
      simp only [Option.map_some, Option.some.injEq, Prod.mk.injEq] at hn
      obtain ⟨rfl, rfl, rfl⟩ := hn
      obtain ⟨i, hi, rfl, rfl⟩ := hd _ _ hh
      refine ⟨i, hi, rfl, ?_⟩
      rw [Nat.add_sub_cancel]
      exact List.take_of_length_le (length_block_le _ _ _)

/-- **Client step.** A packet with truthful data, or the timer, keeps the client at a prefix
of the file, and what it sends acknowledges only what it has written. -/
theorem ClientAt.getStep {c : TftpClient} {st : GetStatus}
    (h : ClientAt c.blockSize file k st.state)
    (hk : k ≤ blockCount c.blockSize file) (hN : blockCount c.blockSize file ≤ 65535)
    {r : RecvFrom} (hr : ∀ d src, r = .datagram d src → TruthfulData c.blockSize file d) :
    ClientMoves c.blockSize file k (c.getStep st r) := by
  cases st with
  | returned result s => exact ClientAt.stays hk h (by intro m hm; cases hm)
  | receiving s =>
      cases r with
      | error message => exact ClientAt.stays hk h (by intro m hm; cases hm)
      | timeout => exact ClientAt.stays hk h (by intro m hm; cases hm)
      | datagram d src =>
          have hd := truthfulData_recvInto (hr d src rfl)
          rw [TftpClient.getStep]
          split
          · exact ClientAt.getPacket (g := { s with serverTid := some src })
              ⟨h.written, h.expected, h.lastAck, h.buffered⟩ hk hN src hd
          · rename_i tid _
            split_ifs
            · exact ClientAt.stays hk h (by intro m hm; cases hm)
            · exact ClientAt.getPacket h hk hN tid hd

end Client

/-! ## The server's side -/

section Server

variable {b : Nat} {file : Bytes} {W k : Nat}

/-- The states of an octet transfer of `file`, when the client has written `k` blocks. The
transfer is completed only when these are all. -/
inductive ServerAt (b : Nat) (file : Bytes) (W k : Nat) : ReadStatus → Prop where
  | oackWait (retry : Nat) : ServerAt b file W k (.oackWait (.streaming (.regular file)) retry)
  | empty (retry : Nat) (hfile : file = []) :
      ServerAt b file W k (.streaming file (.awaitingEmpty retry))
  | emptyDone (e : SendExit) (hfile : file = [])
      (hdone : ∀ bytes n, e = .completed bytes n → k = blockCount b file) :
      ServerAt b file W k (.streaming file (.done e))
  | window (a : WindowSender.State) (hvalid : WindowSender.Valid (segPackets b file) maxRetries a)
      (hdone : a = .finished → k = blockCount b file) :
      ServerAt b file W k (.streaming file (streamStatus b file W a))
  | ended (result : Except TftpError Unit) : ServerAt b file W k (.ended result)

theorem ServerAt.mono {k' : Nat} {s : ReadStatus} (h : ServerAt b file W k s) (hk : k ≤ k')
    (hk' : k' ≤ blockCount b file) : ServerAt b file W k' s := by
  cases h with
  | oackWait retry => exact .oackWait retry
  | empty retry hfile => exact .empty retry hfile
  | emptyDone e hfile hdone =>
      exact .emptyDone e hfile fun bytes n he => by have := hdone bytes n he; omega
  | window a hvalid hdone => exact .window a hvalid fun ha => by have := hdone ha; omega
  | ended result => exact .ended result

theorem ServerAt.completed {s : ReadStatus} (h : ServerAt b file W k s) (hs : s.Completed) :
    k = blockCount b file := by
  cases h with
  | oackWait retry => cases hs
  | empty retry hfile => cases hs
  | emptyDone e hfile hdone =>
      cases hs
      exact hdone _ _ rfl
  | window a hvalid hdone =>
      cases a with
      | awaiting pos retries => cases hs
      | finished => exact hdone rfl
      | gaveUp pos => cases hs
  | ended result => cases hs

/-- What a step of the server may do: stay in the states above and send packets with
truthful data. -/
def ServerMoves (b : Nat) (file : Bytes) (W k : Nat) (next : ReadStatus × List Bytes) : Prop :=
  ServerAt b file W k next.1 ∧ ∀ d ∈ next.2, TruthfulData b file d

theorem truthfulData_of_mem_segPackets {d : Bytes} (h : d ∈ segPackets b file) :
    TruthfulData b file d := by
  obtain ⟨i, hi, rfl⟩ := mem_segPackets.mp h
  intro n payload hn
  rw [segPacket, header_dataPacket] at hn
  cases hn
  exact ⟨i, hi, rfl, rfl⟩

theorem serverMoves_startSending {options : TftpOptions} (hb : 0 < options.blockSize)
    (hW : 0 < options.windowsize) :
    ServerMoves options.blockSize file options.windowsize k
      (startSending .octet options (.streaming (.regular file))) := by
  rw [startSending]
  by_cases hfile : file = []
  · subst hfile
    refine ⟨.empty 0 rfl, fun d hd => truthfulData_of_mem_segPackets ?_⟩
    rw [segPackets_nil]
    exact hd
  · have hsim := streaming_simulates hb hW hfile
    rw [hsim.start]
    refine ⟨.window _ hsim.inv_start (by intro ha; cases ha), fun d hd => ?_⟩
    exact truthfulData_of_mem_segPackets (WindowSender.mem_of_mem_window hd)

theorem awaitEmpty_completed {σ : Type} {retry : Nat} {r : Recv} {bytes : Nat} {n : UInt16}
    (h : (awaitEmpty retry r : SendStatus σ) = .done (.completed bytes n)) : IsAck 1 r := by
  unfold awaitEmpty waitForAck at h
  cases hturn : waitForAckTurn 1 r with
  | accepted => exact (waitForAckTurn_eq_accepted_iff 1 r).mp hturn
  | failed e => simp [hturn] at h
  | again =>
      simp only [hturn] at h
      split_ifs at h
      simp at h

/-- **Server step.** If every ACK that is delivered is truthful, then the transfer completes
only after the client has all blocks, and the server sends blocks of the file only. -/
theorem ServerAt.step {options : TftpOptions} {s : ReadStatus} {r : Recv}
    (hb : 0 < options.blockSize) (hW : 0 < options.windowsize)
    (hN : blockCount options.blockSize file ≤ 65535)
    (hk : k ≤ blockCount options.blockSize file)
    (h : ServerAt options.blockSize file options.windowsize k s)
    (hr : ∀ n, IsAck n r → n.toNat ≤ k) :
    ServerMoves options.blockSize file options.windowsize k
      (readRequestStep .octet options s r) := by
  cases h with
  | oackWait retry =>
      rw [readRequestStep]
      split
      · exact serverMoves_startSending hb hW
      · exact ⟨.ended _, by intro d hd; cases hd⟩
      · exact ⟨.oackWait _, by intro d hd; cases hd⟩
  | empty retry hfile =>
      rw [readRequestStep, sendFileDataStreamingStep]
      refine ⟨?_, by intro d hd; cases hd⟩
      rcases awaitEmpty_cases (σ := StreamState) retry r with ⟨e, he⟩ | ⟨_, he⟩
      · simp only [he]
        refine .emptyDone e hfile fun bytes n hen => ?_
        rw [hen] at he
        have h1 : 1 ≤ k := hr 1 (awaitEmpty_completed he)
        have hone : blockCount options.blockSize file = 1 := by subst hfile; simp [blockCount]
        omega
      · simp only [he]
        exact .empty _ hfile
  | emptyDone e hfile hdone => exact ⟨.emptyDone e hfile hdone, by intro d hd; cases hd⟩
  | ended result => exact ⟨.ended result, by intro d hd; cases hd⟩
  | window a hvalid hdone =>
      cases a with
      | finished => exact ⟨.window .finished trivial hdone, by intro d hd; cases hd⟩
      | gaveUp pos =>
          exact ⟨.window (.gaveUp pos) trivial (by intro ha; cases ha), by intro d hd; cases hd⟩
      | awaiting pos retries =>
          have hpos : pos < blockCount options.blockSize file := by simpa using hvalid.1
          rw [readRequestStep, streamStatus, sendFileDataStreamingStep_eq hb hW hpos]
          refine ⟨.window _ (WindowSender.valid_step hvalid r) fun hfin => ?_, fun d hd => ?_⟩
          · -- the ACK of the last window names the last block, so the client has it
            obtain ⟨hacked, hend⟩ := WindowSender.step_eq_finished hfin
            rw [acked_segPackets hW hpos] at hacked
            have hle := hr _ hacked
            rw [length_segPackets] at hend
            have hlast : pos + windowLen options.blockSize file options.windowsize pos
                = blockCount options.blockSize file := by unfold windowLen; omega
            rw [hlast, toNat_wire_of_lt (by omega)] at hle
            omega
          · exact truthfulData_of_mem_segPackets (WindowSender.mem_of_mem_step hd)

end Server

/-! ## The system -/

/-- A packet from the server's transfer address reaches the client. -/
def clientReceives (c : TftpClient) (tid : SocketAddr) (st : GetStatus) (d : Bytes) :
    GetStatus × List (SocketAddr × Bytes) :=
  c.getStep st (.datagram d tid)

/-- A packet of the client reaches the transfer if it is addressed to it. -/
def serverReceives (server : Machine ReadStatus Recv Bytes) (tid : SocketAddr) (st : ReadStatus)
    (m : SocketAddr × Bytes) : ReadStatus × List Bytes :=
  if m.1 = tid then server.step st (.datagram m.2) else (st, [])

abbrev Download := Duplex GetStatus ReadStatus Bytes (SocketAddr × Bytes)

/-- A download right after the server has accepted the request. -/
def downloadStart (c : TftpClient) (remoteFile : String)
    (server : Machine ReadStatus Recv Bytes) : Download where
  left := (c.get remoteFile).start.1
  right := server.start.1
  toLeft := server.start.2
  toRight := (c.get remoteFile).start.2

/-- Datagrams may be lost, duplicated and reordered, and timers may fire at any time. -/
def DownloadStep (c : TftpClient) (server : Machine ReadStatus Recv Bytes) (tid : SocketAddr) :
    Download → Download → Prop :=
  LossyStep (clientReceives c tid) (serverReceives server tid) (fun st => c.getStep st .timeout)
    (fun st => server.step st .timeout)

/-- **The invariant of a download**: the client has written `k` blocks and every packet ever
sent is truthful. -/
structure Agreement (b : Nat) (file : Bytes) (W k : Nat) (s : Download) : Prop where
  le : k ≤ blockCount b file
  client : ClientAt b file k s.left.state
  server : ServerAt b file W k s.right
  data : ∀ d ∈ s.toLeft, TruthfulData b file d
  acks : ∀ m ∈ s.toRight, TruthfulAck k m.2

section System

variable {b : Nat} {file : Bytes} {W k : Nat} {s : Download}

theorem Agreement.clientMoves {next : GetStatus × List (SocketAddr × Bytes)}
    (h : Agreement b file W k s) (hnext : ClientMoves b file k next) :
    ∃ k', Agreement b file W k'
      { s with left := next.1, toRight := s.toRight ++ next.2 } := by
  obtain ⟨k', hk, hk', hclient, hout⟩ := hnext
  refine ⟨k', hk', hclient, h.server.mono hk hk', h.data, ?_⟩
  intro m hm
  rcases List.mem_append.mp hm with hm | hm
  · exact (h.acks m hm).mono hk
  · exact hout m hm

theorem Agreement.serverMoves {next : ReadStatus × List Bytes} (h : Agreement b file W k s)
    (hnext : ServerMoves b file W k next) :
    ∃ k', Agreement b file W k'
      { s with right := next.1, toLeft := s.toLeft ++ next.2 } := by
  refine ⟨k, h.le, h.client, hnext.1, ?_, h.acks⟩
  intro d hd
  rcases List.mem_append.mp hd with hd | hd
  · exact h.data d hd
  · exact hnext.2 d hd

end System

theorem truthfulData_of_opcode {b : Nat} {file d rest : Bytes} {o : Opcode}
    (hd : getU16 d = some (o.toU16, rest)) (ho : o ≠ .data) : TruthfulData b file d :=
  fun _ _ h => absurd (Opcode.toU16_inj (header_opcode hd h)).symm ho

theorem agreement_start (c : TftpClient) (remoteFile : String) {options : TftpOptions}
    (negotiatedOptions : OptionMap) (maxFileSizeBytes : Nat) (order : IterOrder) (file : Bytes)
    (hb : 0 < options.blockSize) (hW : 0 < options.windowsize) :
    Agreement options.blockSize file options.windowsize 0 (downloadStart c remoteFile
      (handleReadRequest (some (.regular file)) .octet options negotiatedOptions maxFileSizeBytes
        order)) := by
  have hserver : ServerMoves options.blockSize file options.windowsize 0
      (startReadRequest (some (.regular file)) .octet options negotiatedOptions maxFileSizeBytes
        order) := by
    simp only [startReadRequest, reduceCtorEq, false_and, if_false]
    -- an ERROR and an OACK carry no data
    split_ifs with hsize
    · refine ⟨.ended _, fun d hd => ?_⟩
      rw [List.mem_singleton.mp hd]
      exact truthfulData_of_opcode (o := .error) (getU16_putU16 _ _) (by decide)
    · rw [sendOack]
      generalize (if "tsize" ∈ negotiatedOptions then _ else _ : OptionMap) = negotiated
      split_ifs with hnone
      · exact serverMoves_startSending hb hW
      · refine ⟨.oackWait 0, fun d hd => ?_⟩
        rw [List.mem_singleton.mp hd]
        exact truthfulData_of_opcode (o := .oack) (getU16_putU16 _ _) (by decide)
  refine ⟨Nat.zero_le _, ⟨by simp [downloadStart, TftpClient.get, GetStatus.state], rfl,
    Nat.le_refl _, ?_⟩, hserver.1, hserver.2, ?_⟩
  · intro n d hn
    cases hn
  · intro m hm n rest hn
    rw [List.mem_singleton.mp hm] at hn
    have hop := header_opcode (getU16_putU16 _ _) hn
    exact absurd hop (by decide)

/-- **Step lemma.** Every step of the network and of the timers keeps the invariant. -/
theorem agreement_step {c : TftpClient} {options : TftpOptions} {negotiatedOptions : OptionMap}
    {maxFileSizeBytes : Nat} {order : IterOrder} {file : Bytes} {tid : SocketAddr}
    (hb : 0 < c.blockSize) (hblock : options.blockSize = c.blockSize)
    (hW : 0 < options.windowsize) (hN : blockCount c.blockSize file ≤ 65535) {s t : Download}
    (hs : ∃ k, Agreement c.blockSize file options.windowsize k s)
    (hst : DownloadStep c (handleReadRequest (some (.regular file)) .octet options
      negotiatedOptions maxFileSizeBytes order) tid s t) :
    ∃ k, Agreement c.blockSize file options.windowsize k t := by
  obtain ⟨k, hs⟩ := hs
  have hmoves : ∀ r, (∀ n, IsAck n r → n.toNat ≤ k) →
      ServerMoves c.blockSize file options.windowsize k
        (readRequestStep .octet options s.right r) := by
    intro r hr
    rw [← hblock] at hb hN hs ⊢
    exact hs.server.step hb hW hN hs.le hr
  -- the network may deliver anything that was ever sent, any number of times
  cases hst with
  | left d hd =>
      refine hs.clientMoves (hs.client.getStep hs.le hN ?_)
      intro d' src hr
      cases hr
      exact hs.data d hd
  | timerL => exact hs.clientMoves (hs.client.getStep hs.le hN (by intro d src hr; cases hr))
  | timerR =>
      refine hs.serverMoves (hmoves .timeout ?_)
      rintro n ⟨d, rest, hd, -⟩
      cases hd
  | right m hm =>
      refine hs.serverMoves ?_
      rw [serverReceives]
      split_ifs with haddr
      · refine hmoves (.datagram m.2) ?_
        rintro n ⟨d, rest, hd, hn⟩
        cases hd
        exact hs.acks m hm n rest hn
      · exact ⟨hs.server, by intro d hd; cases hd⟩

/-- **Download agreement.** In every run, once the server has completed the transfer the
client has written the file; and at all times the client has written the first `k` blocks of
the file, for some `k` that no ACK it has sent exceeds. -/
theorem download_agreement (c : TftpClient) (remoteFile : String) (tid : SocketAddr)
    (options : TftpOptions) (negotiatedOptions : OptionMap) (maxFileSizeBytes : Nat)
    (order : IterOrder) (file : Bytes) (hb : 8 ≤ c.blockSize ∧ c.blockSize ≤ 65464)
    (hblock : options.blockSize = c.blockSize)
    (hW : 1 ≤ options.windowsize ∧ options.windowsize ≤ 65535)
    (hN : blockCount c.blockSize file ≤ 65535) (s : Download)
    (hs : Relation.ReflTransGen
      (DownloadStep c (handleReadRequest (some (.regular file)) .octet options negotiatedOptions
        maxFileSizeBytes order) tid)
      (downloadStart c remoteFile (handleReadRequest (some (.regular file)) .octet options
        negotiatedOptions maxFileSizeBytes order)) s) :
    (s.right.Completed → s.left.state.written = file) ∧
    s.left.state.written <+: file ∧
    ∃ k, k ≤ blockCount c.blockSize file ∧
      s.left.state.written = ((segment c.blockSize file).take k).flatten ∧
      s.left.state.expectedBlock = wire (k + 1) ∧
      ∀ addr n, (addr, ackPacket n) ∈ s.toRight → n.toNat ≤ k := by
  have hb' : 0 < c.blockSize := by omega
  have hstart := agreement_start c remoteFile negotiatedOptions maxFileSizeBytes order file
    (by omega : 0 < options.blockSize) hW.1
  rw [hblock] at hstart
  obtain ⟨k, h⟩ := invariant_of_step
    (fun s => ∃ k, Agreement c.blockSize file options.windowsize k s)
    (fun s t h hst => agreement_step hb' hblock hW.1 hN h hst) ⟨0, hstart⟩ hs
  have hwritten := h.client.written
  refine ⟨fun hdone => ?_, ?_, k, h.le, ?_, h.client.expected, fun addr n hn => ?_⟩
  · rw [hwritten, h.server.completed hdone, take_blockCount_mul hb']
  · rw [hwritten]
    exact List.take_prefix _ _
  · rw [hwritten, flatten_take_segment file h.le]
  · exact h.acks _ hn n [] (header_ackPacket n)

/-- A one-byte file: DATA `1` is delivered and then its ACK. -/
theorem download_agreement_one_byte :
    let c : TftpClient := ⟨⟨.v4 1, 69⟩, .octet, 512, 1⟩
    let server := handleReadRequest (some (.regular [65])) .octet {} ∅ 0 .entries
    let tid : SocketAddr := ⟨.v4 1, 50000⟩
    ∃ s, Relation.ReflTransGen (DownloadStep c server tid) (downloadStart c "f" server) s ∧
      s.right.Completed ∧ s.left.state.written = [65] := by
  intro c server tid
  have hrun : Relation.ReflTransGen (DownloadStep c server tid) (downloadStart c "f" server) _ :=
    .tail (.tail .refl (.left _ (dataPacket 1 [65]) (by decide)))
      (.right _ (tid, ackPacket 1) (List.mem_append_right _ (by decide)))
  have hdone : ReadStatus.Completed _ := .streaming [65] 1 1
  exact ⟨_, hrun, hdone, (download_agreement c "f" tid {} ∅ 0 .entries [65] (by decide) rfl
    (by decide) (by decide) _ hrun).1 hdone⟩

end UsgTftp
