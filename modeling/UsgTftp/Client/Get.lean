import UsgTftp.Lib.Reactive
import UsgTftp.Options

set_option autoImplicit false

/-! # The client's download

`TftpClient::get` of `src/bin/client.rs`: the RRQ it sends and its receive loop, which
reorders blocks within a window in `block_buffer` and acknowledges a window at a time (RFC
7440). File writes succeed. The variable `total_bytes`, which only a log line reads, is left
out.
-/

namespace UsgTftp

open Reactive

structure TftpClient where
  serverAddr : SocketAddr
  mode : TransferMode
  blockSize : Nat
  windowsize : Nat
  deriving DecidableEq, Repr

/-- The options a request names: `blksize` unless it is the default, `windowsize` if greater
than one. -/
def TftpClient.optionBytes (c : TftpClient) : Bytes :=
  (if c.blockSize ≠ defaultBlockSize then cstring "blksize" ++ cstring c.blockSize.repr else [])
    ++ (if c.windowsize > 1 then cstring "windowsize" ++ cstring c.windowsize.repr else [])

/-- The read request. -/
def TftpClient.rrqPacket (c : TftpClient) (remoteFile : String) : Bytes :=
  putU16 Opcode.rrq.toU16 ++ (cstring remoteFile ++ (cstring c.mode.modeStr ++ c.optionBytes))

/-- What `timeout(d, socket.recv_from(..))` gives. -/
inductive RecvFrom where
  | datagram (d : Bytes) (src : SocketAddr)
  | error (message : String)
  | timeout
  deriving DecidableEq, Repr

inductive ClientError where
  | io (message : String)
  | tftp (message : String)
  /-- `Server error {code}: {text}`; the text is the lossy decoding of these bytes. -/
  | server (code : UInt16) (text : Bytes)
  deriving DecidableEq, Repr

/-! ## The receive loop -/

abbrev BlockBuffer := AList fun _ : UInt16 => Bytes

structure GetState where
  expectedBlock : UInt16 := 1
  serverTid : Option SocketAddr := none
  blockBuffer : BlockBuffer := ∅
  lastAckSent : UInt16 := 0
  /-- The bytes written to the local file. -/
  written : Bytes := []

inductive GetStatus where
  | receiving (s : GetState)
  | returned (result : Except ClientError Unit) (s : GetState)

def GetStatus.state : GetStatus → GetState
  | .receiving s => s
  | .returned _ s => s

def GetStatus.running : GetStatus → Bool
  | .receiving _ => true
  | .returned _ _ => false

/-- The loop that writes buffered blocks which are now in sequence. Every turn removes an
entry, so the number of entries is enough fuel (`drain_lookup`). -/
def drain : Nat → UInt16 → BlockBuffer → Bytes → UInt16 × BlockBuffer × Bytes
  | 0, expectedBlock, buffer, written => (expectedBlock, buffer, written)
  | fuel + 1, expectedBlock, buffer, written =>
      match buffer.lookup expectedBlock with
      | some data => drain fuel (expectedBlock + 1) (buffer.erase expectedBlock) (written ++ data)
      | none => (expectedBlock, buffer, written)

/-- The branch for a DATA packet. -/
def TftpClient.getData (c : TftpClient) (s : GetState) (tid : SocketAddr) (blockNum : UInt16)
    (data : Bytes) : GetStatus × List (SocketAddr × Bytes) :=
  if blockNum < s.expectedBlock then (.receiving s, [(tid, ackPacket s.lastAckSent)])
  else if blockNum > s.expectedBlock then
    (.receiving { s with blockBuffer := s.blockBuffer.insert blockNum data }, [])
  else
    let isFinal := decide (data.length < c.blockSize)
    let (expectedBlock, buffer, written) :=
      drain s.blockBuffer.keys.length (s.expectedBlock + 1) s.blockBuffer (s.written ++ data)
    let s := { s with expectedBlock := expectedBlock, blockBuffer := buffer, written := written }
    let blocksFromLastAck := expectedBlock - (s.lastAckSent + 1)
    let shouldAck := blocksFromLastAck.toNat ≥ c.windowsize ∨ isFinal
    let ackBlock := expectedBlock - 1
    let s := if shouldAck then { s with lastAckSent := ackBlock } else s
    let acks := if shouldAck then [(tid, ackPacket ackBlock)] else []
    if isFinal then (.returned (.ok ()) s, acks) else (.receiving s, acks)

/-- A packet from the server's transfer address. -/
def TftpClient.getPacket (c : TftpClient) (s : GetState) (tid : SocketAddr) (buf : Bytes) :
    GetStatus × List (SocketAddr × Bytes) :=
  match header buf with
  | none => (.returned (.error (.tftp "Packet too small")) s, [])
  | some (opcode, field, rest) =>
      match Opcode.fromU16 opcode with
      | some .data => c.getData s tid field rest
      | some .error => (.returned (.error (.server field rest)) s, [])
      | some .oack => (.receiving { s with lastAckSent := 0 }, [(tid, ackPacket 0)])
      | _ => (.returned (.error (.tftp s!"Unexpected opcode: {opcode}")) s, [])

/-- One turn of the receive loop. The first packet fixes the server's transfer address; later
packets from elsewhere are ignored. -/
def TftpClient.getStep (c : TftpClient) :
    GetStatus → RecvFrom → GetStatus × List (SocketAddr × Bytes)
  | .receiving s, .datagram d src =>
      let buf := recvInto (c.blockSize + 4) d
      match s.serverTid with
      | none => c.getPacket { s with serverTid := some src } src buf
      | some tid => if src ≠ tid then (.receiving s, []) else c.getPacket s tid buf
  | .receiving s, .error message => (.returned (.error (.io message)) s, [])
  | .receiving s, .timeout => (.returned (.error (.tftp "Timeout waiting for data")) s, [])
  | .returned result s, _ => (.returned result s, [])

def TftpClient.get (c : TftpClient) (remoteFile : String) :
    Machine GetStatus RecvFrom (SocketAddr × Bytes) where
  start := (.receiving {}, [(c.serverAddr, c.rrqPacket remoteFile)])
  step := c.getStep
  running := GetStatus.running

/-! ## The buffer loop -/

theorem length_keys_erase {buffer : BlockBuffer} {n : UInt16} {d : Bytes}
    (h : buffer.lookup n = some d) :
    (buffer.erase n).keys.length + 1 = buffer.keys.length := by
  have hmem : n ∈ buffer.keys :=
    AList.mem_keys.mp (AList.lookup_isSome.mp (by rw [h]; rfl))
  have hpos := List.length_pos_of_mem hmem
  rw [AList.keys_erase, List.length_erase_of_mem hmem]
  omega

/-- With the number of entries as fuel the loop ends where the source's loop does: at a block
that is not in the buffer. -/
theorem drain_lookup : ∀ (fuel : Nat) (e : UInt16) (buffer : BlockBuffer) (w : Bytes),
    buffer.keys.length ≤ fuel →
    (drain fuel e buffer w).2.1.lookup (drain fuel e buffer w).1 = none := by
  intro fuel
  induction fuel with
  | zero =>
      intro e buffer w hfuel
      have hnil : buffer.keys = [] := List.eq_nil_of_length_eq_zero (by omega)
      rw [drain, AList.lookup_eq_none, AList.mem_keys, hnil]
      exact List.not_mem_nil
  | succ fuel ih =>
      intro e buffer w hfuel
      rw [drain]
      split
      · rename_i data hlook
        have := length_keys_erase hlook
        exact ih _ _ _ (by omega)
      · rename_i hlook
        exact hlook

/-- **What the buffer loop does.** If every buffered block is block `number - 1` of the file
and every block below `k` has been written, then afterwards every block below some `k' ≥ k`
has. The numbers do not wrap below `limit`. -/
theorem drain_spec {blockAt : Nat → Bytes} {limit : Nat} {prefixUpTo : Nat → Bytes}
    (hlimit : limit < 65536)
    (hnext : ∀ i, prefixUpTo i ++ blockAt i = prefixUpTo (i + 1)) :
    ∀ (fuel k : Nat) (buffer : BlockBuffer), k ≤ limit →
      (∀ n d, buffer.lookup n = some d → ∃ i, i < limit ∧ n = SeqNum.wire (i + 1) ∧ d = blockAt i) →
      ∃ k', k ≤ k' ∧ k' ≤ limit ∧
        (drain fuel (SeqNum.wire (k + 1)) buffer (prefixUpTo k)).1 = SeqNum.wire (k' + 1) ∧
        (drain fuel (SeqNum.wire (k + 1)) buffer (prefixUpTo k)).2.2 = prefixUpTo k' ∧
        ∀ n d, (drain fuel (SeqNum.wire (k + 1)) buffer (prefixUpTo k)).2.1.lookup n = some d →
          buffer.lookup n = some d := by
  intro fuel
  induction fuel with
  | zero => intro k buffer hk _; exact ⟨k, le_refl _, hk, rfl, rfl, fun n d h => h⟩
  | succ fuel ih =>
      intro k buffer hk hbuf
      rw [drain]
      split
      · rename_i data hlook
        -- below `65536` blocks the number tells which block it is
        obtain ⟨i, hi, hn, hd⟩ := hbuf _ _ hlook
        have hik : k = i := by
          have := (SeqNum.wire_inj (m := k + 1) (n := i + 1) (by omega) (by omega)).mp hn
          omega
        subst hik
        have hsub : ∀ n d, (buffer.erase (SeqNum.wire (k + 1))).lookup n = some d →
            buffer.lookup n = some d := by
          intro n d h
          by_cases hne : n = SeqNum.wire (k + 1)
          · rw [hne, AList.lookup_erase] at h; cases h
          · rwa [AList.lookup_erase_ne hne] at h
        rw [SeqNum.wire_add_one, hd, hnext]
        obtain ⟨k', h1, h2, h3, h4, h5⟩ :=
          ih (k + 1) _ (by omega) (fun n d h => hbuf n d (hsub n d h))
        exact ⟨k', by omega, h2, h3, h4, fun n d h => hsub n d (h5 n d h)⟩
      · exact ⟨k, le_refl _, hk, rfl, rfl, fun n d h => h⟩

/-- The same for files of any length, if what is buffered lies ahead and within one cycle of
the block numbers: then what stays in the buffer lies ahead of the new position. -/
theorem drain_ahead {blockAt : Nat → Bytes} {prefixUpTo : Nat → Bytes} {limit : Nat}
    {inFile : Nat → Prop} (hnext : ∀ i, prefixUpTo i ++ blockAt i = prefixUpTo (i + 1)) :
    ∀ (fuel k : Nat) (buffer : BlockBuffer), limit ≤ k + 65536 →
      (∀ n d, buffer.lookup n = some d → ∃ i, inFile i ∧ k ≤ i ∧ i < limit ∧
        n = SeqNum.wire (i + 1) ∧ d = blockAt i) →
      ∃ k', k ≤ k' ∧ (k' = k ∨ inFile (k' - 1) ∧ k' ≤ limit) ∧
        (drain fuel (SeqNum.wire (k + 1)) buffer (prefixUpTo k)).1 = SeqNum.wire (k' + 1) ∧
        (drain fuel (SeqNum.wire (k + 1)) buffer (prefixUpTo k)).2.2 = prefixUpTo k' ∧
        ∀ n d, (drain fuel (SeqNum.wire (k + 1)) buffer (prefixUpTo k)).2.1.lookup n = some d →
          ∃ i, inFile i ∧ k' ≤ i ∧ i < limit ∧ n = SeqNum.wire (i + 1) ∧ d = blockAt i := by
  intro fuel
  induction fuel with
  | zero => intro k buffer _ hbuf; exact ⟨k, le_refl _, Or.inl rfl, rfl, rfl, hbuf⟩
  | succ fuel ih =>
      intro k buffer hlimit hbuf
      rw [drain]
      cases hlook : buffer.lookup (SeqNum.wire (k + 1)) with
      | none => exact ⟨k, le_refl _, Or.inl rfl, rfl, rfl, hbuf⟩
      | some data =>
          obtain ⟨i, hin, hki, hi, hn, rfl⟩ := hbuf _ _ hlook
          have hik : k + 1 = i + 1 := (SeqNum.wire_inj (by omega) (by omega)).mp hn
          obtain rfl : k = i := by omega
          -- the other entries lie one block further ahead
          have hrest : ∀ n d, (buffer.erase (SeqNum.wire (k + 1))).lookup n = some d →
              ∃ i, inFile i ∧ k + 1 ≤ i ∧ i < limit ∧ n = SeqNum.wire (i + 1) ∧
                d = blockAt i := by
            intro n d h
            have hne : n ≠ SeqNum.wire (k + 1) := by
              rintro rfl
              rw [AList.lookup_erase] at h
              cases h
            rw [AList.lookup_erase_ne hne] at h
            obtain ⟨i, hin', hki', hi', rfl, hd⟩ := hbuf n d h
            have hik : i ≠ k := by
              rintro rfl
              exact hne rfl
            exact ⟨i, hin', by omega, hi', rfl, hd⟩
          simp only
          rw [SeqNum.wire_add_one, hnext]
          obtain ⟨k', hle, hlast, hexp, hwritten, hleft⟩ := ih (k + 1) _ (by omega) hrest
          refine ⟨k', by omega, Or.inr ?_, hexp, hwritten, hleft⟩
          rcases hlast with rfl | h
          · exact ⟨hin, hi⟩
          · exact h

theorem blockBuffer_eq_empty {buffer : BlockBuffer} (h : ∀ n, buffer.lookup n = none) :
    buffer = ∅ := by
  apply AList.ext
  have hkeys : buffer.keys = [] := by
    refine List.eq_nil_iff_forall_not_mem.mpr fun n hn => ?_
    exact AList.lookup_eq_none.mp (h n) (AList.mem_keys.mpr hn)
  exact List.map_eq_nil_iff.mp hkeys

/-- If the buffer holds exactly the blocks from `k` up to `e`, all of them are written. -/
theorem drain_all {blockAt : Nat → Bytes} {prefixUpTo : Nat → Bytes} {e : Nat}
    (hnext : ∀ i, prefixUpTo i ++ blockAt i = prefixUpTo (i + 1)) :
    ∀ (fuel k : Nat) (buffer : BlockBuffer), buffer.keys.length ≤ fuel → k ≤ e →
      e ≤ k + 65535 →
      (∀ t, k ≤ t → t < e → buffer.lookup (SeqNum.wire (t + 1)) = some (blockAt t)) →
      (∀ n d, buffer.lookup n = some d → ∃ t, k ≤ t ∧ t < e ∧ n = SeqNum.wire (t + 1)) →
      drain fuel (SeqNum.wire (k + 1)) buffer (prefixUpTo k)
        = (SeqNum.wire (e + 1), ∅, prefixUpTo e) := by
  intro fuel
  induction fuel with
  | zero =>
      -- the fuel covers the buffer, so nothing is left in it
      intro k buffer hfuel hke _ hall _
      have hnone : ∀ n, buffer.lookup n = none := by
        intro n
        rw [AList.lookup_eq_none, AList.mem_keys,
          List.eq_nil_of_length_eq_zero (by omega : buffer.keys.length = 0)]
        exact List.not_mem_nil
      have heq : k = e := by
        by_contra hne
        have := hall k (Nat.le_refl _) (by omega)
        rw [hnone] at this
        cases this
      rw [drain, heq, blockBuffer_eq_empty hnone]
  | succ fuel ih =>
      intro k buffer hfuel hke hcycle hall honly
      rw [drain]
      by_cases heq : k = e
      · subst heq
        have hnone : ∀ n, buffer.lookup n = none := by
          intro n
          cases hn : buffer.lookup n with
          | none => rfl
          | some d =>
              obtain ⟨t, hkt, htk, -⟩ := honly n d hn
              omega
        rw [hnone, blockBuffer_eq_empty hnone]
      · have hlook := hall k (Nat.le_refl _) (by omega)
        have hlen := length_keys_erase hlook
        rw [hlook]
        simp only
        rw [SeqNum.wire_add_one, hnext]
        -- block `k` leaves the buffer, and within one cycle no other has its number
        refine ih (k + 1) _ (by omega) (by omega) (by omega) ?_ ?_
        · intro t hkt hte
          have hne : SeqNum.wire (t + 1) ≠ SeqNum.wire (k + 1) := by
            rw [ne_eq, SeqNum.wire_inj (by omega) (by omega)]
            omega
          rw [AList.lookup_erase_ne hne]
          exact hall t (by omega) hte
        · intro n d hn
          have hne : n ≠ SeqNum.wire (k + 1) := by
            rintro rfl
            rw [AList.lookup_erase] at hn
            cases hn
          rw [AList.lookup_erase_ne hne] at hn
          obtain ⟨t, hkt, hte, rfl⟩ := honly n d hn
          have hkt' : t ≠ k := by
            rintro rfl
            exact hne rfl
          exact ⟨t, by omega, hte, rfl⟩

/-! ## Packets of the server -/

section

variable {c : TftpClient} {g : GetState} {tid : SocketAddr}

/-- A packet from the server's transfer address, which the first one fixes. -/
theorem getStep_server (h : g.serverTid = none ∨ g.serverTid = some tid) (d : Bytes) :
    c.getStep (.receiving g) (.datagram d tid)
      = c.getPacket { g with serverTid := some tid } tid (recvInto (c.blockSize + 4) d) := by
  rcases h with h | h
  · simp only [TftpClient.getStep, h]
  · simp only [TftpClient.getStep, h]
    rw [if_neg (fun hne => hne rfl), ← h]

/-- A DATA packet of a file that is cut at the client's block size fits the buffer. -/
theorem getPacket_segPacket (file : Bytes) (i : Nat) :
    c.getPacket g tid (recvInto (c.blockSize + 4) (segPacket c.blockSize file i))
      = c.getData g tid (SeqNum.wire (i + 1)) (Segment.block c.blockSize file i) := by
  have hlen := Segment.length_block_le c.blockSize file i
  have hfits : (segPacket c.blockSize file i).length ≤ c.blockSize + 4 := by
    rw [segPacket, length_dataPacket]
    omega
  rw [recvInto_of_le hfits, TftpClient.getPacket, segPacket, header_dataPacket]
  simp only
  rw [Opcode.fromU16_toU16]

end

end UsgTftp
