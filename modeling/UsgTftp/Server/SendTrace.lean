import UsgTftp.Lib.WindowSender
import UsgTftp.Server.Send

set_option autoImplicit false

/-! # What the server's senders put on the wire

Both senders of `Server/Send.lean` keep their own offset, window, end-of-file and block
number bookkeeping. This file shows that on a non-empty file each of them is the abstract
window sender (`Lib/WindowSender.lean`) over the canonical segmentation of the file:
`bufferedState` and `streamState` give, for the abstract state "the window at `pos` is in
flight for the `retries + 1`-st time", the local variables the code has at that point, and
`buffered_simulates` and `streaming_simulates` show that every step agrees.
-/

namespace UsgTftp

open Reactive Segment SeqNum

/-! ## Windows of the canonical segmentation -/

/-- The reply `r` is an ACK that carries the block number of the packet `p`. -/
def acksPacket (p : Bytes) : Recv → Bool
  | .datagram d =>
      match header p, header d with
      | some (_, n, _), some (opcode, m, _) => opcode = Opcode.ack.toU16 ∧ m = n
      | _, _ => false
  | _ => false

theorem acksPacket_dataPacket {n : UInt16} {payload : Bytes} {r : Recv} :
    acksPacket (dataPacket n payload) r = true ↔ IsAck n r := by
  cases r with
  | error m => simp [acksPacket, IsAck]
  | timeout => simp [acksPacket, IsAck]
  | datagram d =>
      simp only [acksPacket, header_dataPacket, IsAck]
      cases hh : header d with
      | none => simp [hh]
      | some v => obtain ⟨opcode, m, rest⟩ := v; simp [hh]

/-- The number of packets in the window at `pos`. -/
def windowLen (b : Nat) (file : Bytes) (W pos : Nat) : Nat := min W (blockCount b file - pos)

section

variable {b : Nat} {file : Bytes} {W pos : Nat}

theorem windowLen_pos (hW : 0 < W) (hpos : pos < blockCount b file) :
    0 < windowLen b file W pos := by
  unfold windowLen; omega

theorem window_range_map {α : Type} (f : Nat → α) (n W pos : Nat) :
    WindowSender.window ((List.range n).map f) W pos
      = (List.range' pos (min W (n - pos))).map f := by
  rw [WindowSender.window, ← List.map_drop, ← List.map_take, List.range_eq_range',
    List.drop_range', Nat.zero_add, Nat.mul_one]
  rcases Nat.le_total (n - pos) W with h | h
  · rw [List.take_range'_of_length_le h, Nat.min_eq_right h]
  · rw [List.take_range'_of_length_ge h, Nat.min_eq_left h]

theorem window_segPackets :
    WindowSender.window (segPackets b file) W pos
      = (List.range' pos (windowLen b file W pos)).map (segPacket b file) :=
  window_range_map _ _ _ _

theorem getLast?_range'_map {α : Type} (f : Nat → α) {n : Nat} (hn : 0 < n) :
    ((List.range' pos n).map f).getLast? = some (f (pos + n - 1)) := by
  obtain ⟨m, rfl⟩ : ∃ m, n = m + 1 := ⟨n - 1, by omega⟩
  rw [List.range'_concat]
  simp

/-- The acknowledgement of a window of numbered packets carries its last number. -/
theorem acked_numbered (payload : Nat → Bytes) (hW : 0 < W) (hpos : pos < blockCount b file)
    (r : Recv) :
    WindowSender.acked acksPacket
        ((List.range (blockCount b file)).map fun i => dataPacket (wire (i + 1)) (payload i)) W
        pos r = true
      ↔ IsAck (wire (pos + windowLen b file W pos)) r := by
  have hlen := windowLen_pos hW hpos
  rw [WindowSender.acked, window_range_map, ← windowLen, getLast?_range'_map _ hlen,
    Option.any_some, acksPacket_dataPacket, show pos + windowLen b file W pos - 1 + 1
      = pos + windowLen b file W pos by omega]

theorem acked_segPackets (hW : 0 < W) (hpos : pos < blockCount b file) (r : Recv) :
    WindowSender.acked acksPacket (segPackets b file) W pos r = true
      ↔ IsAck (wire (pos + windowLen b file W pos)) r :=
  acked_numbered (block b file) hW hpos r

/-- The ACK that names the end of the window. -/
theorem acked_ackPacket (hW : 0 < W) (hpos : pos < blockCount b file) {e : Nat}
    (he : e = min (pos + W) (blockCount b file)) :
    WindowSender.acked acksPacket (segPackets b file) W pos
      (.datagram (ackPacket (wire e))) = true := by
  have hend : pos + windowLen b file W pos = e := by
    unfold windowLen
    omega
  rw [acked_segPackets hW hpos, hend]
  exact isAck_ackPacket.mpr rfl

end

/-! ## The buffered sender -/

def bufferedEntry (b : Nat) (file : Bytes) (i : Nat) : WindowPacket :=
  ⟨wire (i + 1), segPacket b file i, (block b file i).length⟩

/-- The variables of `send_file_data_buffered` with the window at `pos` in flight. -/
def bufferedState (b : Nat) (file : Bytes) (W pos retries : Nat) : BufferedState where
  offset := pos * b
  blockNum := wire (pos + 1)
  eofSent := decide (blockCount b file ≤ pos + W)
  windowPackets := (List.range' pos (windowLen b file W pos)).map (bufferedEntry b file)
  retries := retries

theorem buildWindowBuffered_eq {b : Nat} (hb : 0 < b) (file : Bytes) :
    ∀ (room pos : Nat), pos < blockCount b file →
      buildWindowBuffered file b room (pos * b) (wire (pos + 1))
        = ((List.range' pos (windowLen b file room pos)).map (bufferedEntry b file),
            decide (blockCount b file ≤ pos + room)) := by
  intro room
  induction room with
  | zero =>
      intro pos hpos
      simp [buildWindowBuffered, windowLen, hpos]
  | succ room ih =>
      intro pos hpos
      have hstart := (lt_blockCount_iff hb file pos).mp hpos
      -- the slice of the file that the code takes is the block
      have hdata : (if pos * b < file.length
            then (file.drop (pos * b)).take (min b (file.length - pos * b)) else [])
          = block b file pos := by
        split_ifs with hlt
        · rw [block, List.take_eq_take_iff]
          simp
        · rw [block, List.drop_eq_nil_of_le (by omega), List.take_nil]
      have hlen := length_block b file pos
      have hentry : (⟨wire (pos + 1), dataPacket (wire (pos + 1)) (block b file pos),
          min b (file.length - pos * b)⟩ : WindowPacket) = bufferedEntry b file pos := by
        rw [bufferedEntry, segPacket, hlen]
      simp only [buildWindowBuffered]
      rw [if_pos hstart, hdata, hentry, ← hlen]
      by_cases hlast : pos + 1 = blockCount b file
      · rw [if_pos ((length_block_lt_iff hb file hpos).mpr hlast)]
        have hone : windowLen b file (room + 1) pos = 1 := by unfold windowLen; omega
        simp only [hone, List.range'_one, List.map_cons, List.map_nil, Prod.mk.injEq, true_and]
        simp; omega
      · have hfull := length_block_of_lt hb file (i := pos) (by omega)
        rw [if_neg (by omega), hfull, show pos * b + b = (pos + 1) * b by ring,
          show wire (pos + 1) + 1 = wire (pos + 1 + 1) from wire_add_one _,
          ih (pos + 1) (by omega)]
        have hsucc : windowLen b file (room + 1) pos = windowLen b file room (pos + 1) + 1 := by
          unfold windowLen; omega
        rw [hsucc, List.range'_succ, List.map_cons]
        simp only [Prod.mk.injEq, decide_eq_decide, true_and]
        omega

theorem sendWindowBuffered_eq (b : Nat) (file : Bytes) (W pos retries : Nat) :
    sendWindowBuffered (bufferedState b file W pos retries)
      = if retries < maxRetries then
          (.awaiting (bufferedState b file W pos retries),
            WindowSender.window (segPackets b file) W pos)
        else (.done (.maxRetriesExceeded (wire (pos + 1))), []) := by
  have hmap : (bufferedState b file W pos retries).windowPackets.map (·.packet)
      = WindowSender.window (segPackets b file) W pos := by
    rw [window_segPackets, bufferedState, List.map_map]
    rfl
  rw [sendWindowBuffered, hmap]
  by_cases h : retries < maxRetries
  · rw [if_pos h, if_neg (by simp only [bufferedState]; omega)]
  · rw [if_neg h, if_pos (by simp only [bufferedState]; omega)]
    rfl

theorem nextWindowBuffered_eq {b W : Nat} (hb : 0 < b) (hW : 0 < W) {file : Bytes} {pos : Nat}
    (hpos : pos < blockCount b file) :
    nextWindowBuffered file b W (pos * b) (wire (pos + 1)) false
      = (.awaiting (bufferedState b file W pos 0),
          WindowSender.window (segPackets b file) W pos) := by
  have hne : (List.range' pos (windowLen b file W pos)).map (bufferedEntry b file) ≠ [] := by
    have := windowLen_pos hW hpos
    simp only [ne_eq, List.map_eq_nil_iff, List.range'_eq_nil_iff]
    omega
  rw [nextWindowBuffered, if_pos ⟨(lt_blockCount_iff hb file pos).mp hpos, rfl⟩,
    buildWindowBuffered_eq hb file W pos hpos]
  simp only
  rw [if_neg hne]
  exact sendWindowBuffered_eq b file W pos 0

/-- The loop over an acknowledged window reaches the final block iff the window does. -/
theorem advanceBuffered_eq {b : Nat} (hb : 0 < b) (file : Bytes) :
    ∀ (n pos : Nat), pos < blockCount b file → 0 < n → pos + n ≤ blockCount b file →
      advanceBuffered file b ((List.range' pos n).map (bufferedEntry b file)) (pos * b)
          (wire (pos + 1))
        = if pos + n = blockCount b file
          then .inl (.completed file.length (wire (blockCount b file)))
          else .inr ((pos + n) * b, wire (pos + n + 1)) := by
  intro n
  induction n with
  | zero => intro pos _ h; omega
  | succ n ih =>
      intro pos hpos _ hle
      rw [List.range'_succ, List.map_cons, advanceBuffered]
      have hbytes : (bufferedEntry b file pos).bytesToSend = (block b file pos).length := rfl
      have hnum : (bufferedEntry b file pos).blockNum = wire (pos + 1) := rfl
      rw [hbytes, hnum]
      -- only the final block is short, and it is the last of the window
      by_cases hlast : pos + 1 = blockCount b file
      · rw [if_pos ((length_block_lt_iff hb file hpos).mpr hlast), if_pos (by omega), hlast]
      · have hfull := length_block_of_lt hb file (i := pos) (by omega)
        rw [if_neg (by omega), hfull, show pos * b + b = (pos + 1) * b by ring, wire_add_one]
        rcases Nat.eq_zero_or_pos n with rfl | hn
        · rw [if_neg (by omega)]
          simp [advanceBuffered]
        · rw [ih (pos + 1) (by omega) hn (by omega),
            show pos + 1 + n = pos + (n + 1) by omega]

/-- The concrete state of an abstract one. -/
def bufferedStatus (b : Nat) (file : Bytes) (W : Nat) :
    WindowSender.State → SendStatus BufferedState
  | .awaiting pos retries => .awaiting (bufferedState b file W pos retries)
  | .finished => .done (.completed file.length (wire (blockCount b file)))
  | .gaveUp pos => .done (.maxRetriesExceeded (wire (pos + 1)))

theorem sendFileDataBufferedStep_eq {b W : Nat} (hb : 0 < b) (hW : 0 < W) {file : Bytes}
    {pos retries : Nat} (hpos : pos < blockCount b file) (r : Recv) :
    sendFileDataBufferedStep file b W (.awaiting (bufferedState b file W pos retries)) r
      = (bufferedStatus b file W (WindowSender.step acksPacket (segPackets b file) W maxRetries
            (.awaiting pos retries) r).1,
          (WindowSender.step acksPacket (segPackets b file) W maxRetries
            (.awaiting pos retries) r).2) := by
  have hlen := windowLen_pos hW hpos
  have hacked := acked_segPackets hW hpos r
  have hlast : (bufferedState b file W pos retries).windowPackets.getLast?
      = some (bufferedEntry b file (pos + windowLen b file W pos - 1)) :=
    getLast?_range'_map _ hlen
  have hnum : (bufferedEntry b file (pos + windowLen b file W pos - 1)).blockNum
      = wire (pos + windowLen b file W pos) := by
    simp only [bufferedEntry]; congr 1; omega
  simp only [sendFileDataBufferedStep, hlast, hnum, WindowSender.step]
  by_cases hack : IsAck (wire (pos + windowLen b file W pos)) r
  · have hok := (waitForAckWithDuplicateHandling_eq_ok_true_iff _ _).mpr hack
    rw [if_pos (hacked.mpr hack), hok]
    have hadv : advanceBuffered file b (bufferedState b file W pos retries).windowPackets
        (bufferedState b file W pos retries).offset
        (bufferedState b file W pos retries).blockNum = _ :=
      advanceBuffered_eq hb file (windowLen b file W pos) pos hpos hlen
        (by unfold windowLen; omega)
    simp only
    rw [hadv, length_segPackets]
    by_cases hmore : pos + W < blockCount b file
    · have hw : windowLen b file W pos = W := by unfold windowLen; omega
      have heof : (bufferedState b file W pos retries).eofSent = false :=
        decide_eq_false (by omega)
      rw [if_neg (by omega), if_pos hmore]
      simp only
      rw [heof, hw, nextWindowBuffered_eq hb hW hmore]
      rfl
    · rw [if_pos (by unfold windowLen; omega), if_neg hmore]
      rfl
  · have hne : waitForAckWithDuplicateHandling (wire (pos + windowLen b file W pos)) r
        ≠ .ok true := fun h => hack ((waitForAckWithDuplicateHandling_eq_ok_true_iff _ _).mp h)
    rw [if_neg (fun h => hack (hacked.mp h))]
    -- every other outcome of the wait is one more retry
    split
    · rename_i h; exact absurd h hne
    · have hsend : sendWindowBuffered { bufferedState b file W pos retries with
          retries := (bufferedState b file W pos retries).retries + 1 } = _ :=
        sendWindowBuffered_eq b file W pos (retries + 1)
      rw [hsend]
      by_cases hmore : retries + 1 < maxRetries
      · rw [if_pos hmore, if_pos hmore]
        rfl
      · rw [if_neg hmore, if_neg hmore]
        rfl

/-- **The buffered sender is the window sender over the segmentation.** -/
theorem buffered_simulates {b W : Nat} (hb : 0 < b) (hW : 0 < W) {file : Bytes}
    (hfile : file ≠ []) :
    Machine.Simulates (WindowSender.machine acksPacket (segPackets b file) W maxRetries)
      (sendFileDataBuffered file b W) (bufferedStatus b file W)
      (WindowSender.Valid (segPackets b file) maxRetries) where
  start := by
    have h := nextWindowBuffered_eq hb hW (blockCount_pos b file)
    rw [Nat.zero_mul] at h
    simp only [sendFileDataBuffered, if_neg hfile]
    exact h
  running := by intro s; cases s <;> rfl
  step := by
    intro s r hs hrun
    cases s with
    | finished => cases hrun
    | gaveUp pos => cases hrun
    | awaiting pos retries =>
        exact sendFileDataBufferedStep_eq hb hW (by simpa using hs.1) r
  inv_start := WindowSender.valid_start (segPackets_ne_nil b file) (by decide)
  inv_step := fun _ r hs _ => WindowSender.valid_step hs r

/-! ## The streaming sender -/

/-- The DATA packet that the streaming sender makes of the block `i`. -/
def streamPacket (mode : TransferMode) (b : Nat) (file : Bytes) (i : Nat) : Bytes :=
  dataPacket (wire (i + 1)) (blockDataStreaming mode (block b file i))

/-- All of them: one for each block of the file, whatever its conversion is long. -/
def streamPackets (mode : TransferMode) (b : Nat) (file : Bytes) : List Bytes :=
  (List.range (blockCount b file)).map (streamPacket mode b file)

/-- The payload bytes of the first `n` of them. -/
def streamedBytes (mode : TransferMode) (b : Nat) (file : Bytes) (n : Nat) : Nat :=
  ((List.range n).map fun i => (blockDataStreaming mode (block b file i)).length).sum

def streamEntryIn (mode : TransferMode) (b : Nat) (file : Bytes) (i : Nat) : StreamPacket :=
  ⟨wire (i + 1), streamPacket mode b file i, (blockDataStreaming mode (block b file i)).length,
    decide ((block b file i).length < b)⟩

/-- The variables of `send_file_data_streaming` with the window at `pos` in flight: unlike the
buffered sender it has already read the window and counted its blocks. -/
def streamStateIn (mode : TransferMode) (b : Nat) (file : Bytes) (W pos retries : Nat) :
    StreamState where
  cursor := min file.length ((pos + windowLen b file W pos) * b)
  blockNum := wire (pos + windowLen b file W pos + 1)
  windowStartBlock := wire (pos + 1)
  bytesTransferred := streamedBytes mode b file pos
  eofReached := decide (blockCount b file ≤ pos + W)
  windowPackets := (List.range' pos (windowLen b file W pos)).map (streamEntryIn mode b file)
  retries := retries

@[simp] theorem length_streamPackets (mode : TransferMode) (b : Nat) (file : Bytes) :
    (streamPackets mode b file).length = blockCount b file := by
  simp [streamPackets]

theorem streamPackets_ne_nil (mode : TransferMode) (b : Nat) (file : Bytes) :
    streamPackets mode b file ≠ [] := by
  intro hnil
  have := congrArg List.length hnil
  rw [length_streamPackets] at this
  exact absurd this (blockCount_pos b file).ne'

theorem streamedBytes_succ (mode : TransferMode) (b : Nat) (file : Bytes) (n : Nat) :
    streamedBytes mode b file (n + 1)
      = streamedBytes mode b file n + (blockDataStreaming mode (block b file n)).length := by
  rw [streamedBytes, List.range_succ, List.map_append, List.sum_append, List.map_singleton,
    List.sum_singleton]
  rfl

theorem buildWindowStreaming_eq (mode : TransferMode) {b : Nat} (hb : 0 < b) (file : Bytes) :
    ∀ (room pos : Nat), pos < blockCount b file →
      buildWindowStreaming file mode b room (pos * b) (wire (pos + 1))
        = ((List.range' pos (windowLen b file room pos)).map (streamEntryIn mode b file),
            min file.length ((pos + windowLen b file room pos) * b),
            wire (pos + windowLen b file room pos + 1),
            decide (blockCount b file ≤ pos + room)) := by
  intro room
  induction room with
  | zero =>
      intro pos hpos
      have hstart := (lt_blockCount_iff hb file pos).mp hpos
      simp [buildWindowStreaming, windowLen, hpos, hstart]
  | succ room ih =>
      intro pos hpos
      have hstart := (lt_blockCount_iff hb file pos).mp hpos
      have hlen := length_block b file pos
      have hread : (file.drop (pos * b)).take b = block b file pos := rfl
      simp only [buildWindowStreaming]
      rw [hread]
      -- a short read means the end of the file, and the window ends there
      by_cases hlast : pos + 1 = blockCount b file
      · have hshort := (length_block_lt_iff hb file hpos).mpr hlast
        have hone : windowLen b file (room + 1) pos = 1 := by unfold windowLen; omega
        have hmul : (pos + 1) * b = pos * b + b := by ring
        rw [if_pos (by simpa using hshort), hone, List.range'_one, List.map_singleton,
          wire_add_one]
        simp only [Prod.mk.injEq, true_and]
        refine ⟨rfl, ?_, ?_⟩
        · rw [hmul]; omega
        · simp; omega
      · have hfull := length_block_of_lt hb file (i := pos) (by omega)
        have hsucc : windowLen b file (room + 1) pos = windowLen b file room (pos + 1) + 1 := by
          unfold windowLen; omega
        rw [if_neg (by simp; omega), hfull, show pos * b + b = (pos + 1) * b by ring,
          wire_add_one, ih (pos + 1) (by omega), hsucc, List.range'_succ, List.map_cons]
        simp only [Prod.mk.injEq, decide_eq_decide]
        refine ⟨?_, ?_, ?_, by omega⟩
        · simp [streamEntryIn, streamPacket, hfull]
        · rw [show pos + 1 + windowLen b file room (pos + 1)
            = pos + (windowLen b file room (pos + 1) + 1) by omega]
        · rw [show pos + 1 + windowLen b file room (pos + 1)
            = pos + (windowLen b file room (pos + 1) + 1) by omega]

theorem sendWindowStreaming_eq (mode : TransferMode) (b : Nat) (file : Bytes)
    (W pos retries : Nat) :
    sendWindowStreaming (streamStateIn mode b file W pos retries)
      = if retries < maxRetries then
          (.awaiting (streamStateIn mode b file W pos retries),
            WindowSender.window (streamPackets mode b file) W pos)
        else (.done (.maxRetriesExceeded (wire (pos + 1))), []) := by
  have hmap : (streamStateIn mode b file W pos retries).windowPackets.map (·.packet)
      = WindowSender.window (streamPackets mode b file) W pos := by
    rw [streamPackets, window_range_map, streamStateIn, List.map_map]
    rfl
  rw [sendWindowStreaming, hmap]
  by_cases h : retries < maxRetries
  · rw [if_pos h, if_neg (by simp only [streamStateIn]; omega)]
  · rw [if_neg h, if_pos (by simp only [streamStateIn]; omega)]
    rfl

theorem nextWindowStreaming_eq (mode : TransferMode) {b W : Nat} (hb : 0 < b) (hW : 0 < W)
    {file : Bytes} {pos : Nat} (hpos : pos < blockCount b file) :
    nextWindowStreaming file mode b W (pos * b) (wire (pos + 1)) (streamedBytes mode b file pos)
        false
      = (.awaiting (streamStateIn mode b file W pos 0),
          WindowSender.window (streamPackets mode b file) W pos) := by
  have hne : (List.range' pos (windowLen b file W pos)).map (streamEntryIn mode b file) ≠ [] := by
    have := windowLen_pos hW hpos
    simp only [ne_eq, List.map_eq_nil_iff, List.range'_eq_nil_iff]
    omega
  simp only [nextWindowStreaming, Bool.false_eq_true, if_false]
  rw [buildWindowStreaming_eq mode hb file W pos hpos]
  simp only
  rw [if_neg hne]
  exact sendWindowStreaming_eq mode b file W pos 0

theorem advanceStreaming_eq (mode : TransferMode) {b : Nat} (hb : 0 < b) (file : Bytes) :
    ∀ (n pos : Nat), pos < blockCount b file → 0 < n → pos + n ≤ blockCount b file →
      advanceStreaming ((List.range' pos n).map (streamEntryIn mode b file))
          (streamedBytes mode b file pos)
        = if pos + n = blockCount b file
          then .inl (.completed (streamedBytes mode b file (blockCount b file))
            (wire (blockCount b file)))
          else .inr (streamedBytes mode b file (pos + n)) := by
  intro n
  induction n with
  | zero => intro pos _ h; omega
  | succ n ih =>
      intro pos hpos _ hle
      rw [List.range'_succ, List.map_cons, advanceStreaming]
      have hfin : (streamEntryIn mode b file pos).isFinal
          = decide ((block b file pos).length < b) := rfl
      have hbytes : streamedBytes mode b file pos + (streamEntryIn mode b file pos).bytesSent
          = streamedBytes mode b file (pos + 1) := (streamedBytes_succ mode b file pos).symm
      have hnum : (streamEntryIn mode b file pos).blockNum = wire (pos + 1) := rfl
      rw [hfin, hbytes, hnum]
      by_cases hlast : pos + 1 = blockCount b file
      · have hshort := (length_block_lt_iff hb file hpos).mpr hlast
        rw [if_pos (by simpa using hshort), if_pos (by omega), hlast]
      · have hfull := length_block_of_lt hb file (i := pos) (by omega)
        rw [if_neg (by simp; omega)]
        rcases Nat.eq_zero_or_pos n with rfl | hn
        · rw [if_neg (by omega)]
          simp [advanceStreaming]
        · rw [ih (pos + 1) (by omega) hn (by omega),
            show pos + 1 + n = pos + (n + 1) by omega]

/-- The concrete state of an abstract one. -/
def streamStatusIn (mode : TransferMode) (b : Nat) (file : Bytes) (W : Nat) :
    WindowSender.State → SendStatus StreamState
  | .awaiting pos retries => .awaiting (streamStateIn mode b file W pos retries)
  | .finished =>
      .done (.completed (streamedBytes mode b file (blockCount b file)) (wire (blockCount b file)))
  | .gaveUp pos => .done (.maxRetriesExceeded (wire (pos + 1)))

theorem streamingStep_eq (mode : TransferMode) {b W : Nat} (hb : 0 < b) (hW : 0 < W)
    {file : Bytes} {pos retries : Nat} (hpos : pos < blockCount b file) (r : Recv) :
    sendFileDataStreamingStep file mode b W (.awaiting (streamStateIn mode b file W pos retries)) r
      = (streamStatusIn mode b file W (WindowSender.step acksPacket (streamPackets mode b file) W
            maxRetries (.awaiting pos retries) r).1,
          (WindowSender.step acksPacket (streamPackets mode b file) W maxRetries
            (.awaiting pos retries) r).2) := by
  have hlen := windowLen_pos hW hpos
  have hacked : WindowSender.acked acksPacket (streamPackets mode b file) W pos r = true
      ↔ IsAck (wire (pos + windowLen b file W pos)) r := acked_numbered _ hW hpos r
  have hlast : (streamStateIn mode b file W pos retries).windowPackets.getLast?
      = some (streamEntryIn mode b file (pos + windowLen b file W pos - 1)) :=
    getLast?_range'_map _ hlen
  have hnum : (streamEntryIn mode b file (pos + windowLen b file W pos - 1)).blockNum
      = wire (pos + windowLen b file W pos) := by
    simp only [streamEntryIn]; congr 1; omega
  simp only [sendFileDataStreamingStep, hlast, hnum, WindowSender.step]
  by_cases hack : IsAck (wire (pos + windowLen b file W pos)) r
  · have hok := (waitForAckWithDuplicateHandling_eq_ok_true_iff _ _).mpr hack
    rw [if_pos (hacked.mpr hack), hok]
    have hadv : advanceStreaming (streamStateIn mode b file W pos retries).windowPackets
        (streamStateIn mode b file W pos retries).bytesTransferred = _ :=
      advanceStreaming_eq mode hb file (windowLen b file W pos) pos hpos hlen
        (by unfold windowLen; omega)
    simp only
    rw [hadv, length_streamPackets]
    by_cases hmore : pos + W < blockCount b file
    · -- the cursor stands at the next window, and the loop has not seen the end
      have hw : windowLen b file W pos = W := by unfold windowLen; omega
      have hcur := (lt_blockCount_iff hb file (pos + W)).mp hmore
      have heof : (streamStateIn mode b file W pos retries).eofReached = false :=
        decide_eq_false (by omega)
      have hcursor : (streamStateIn mode b file W pos retries).cursor = (pos + W) * b := by
        rw [streamStateIn, hw, Nat.min_eq_right hcur]
      have hblock : (streamStateIn mode b file W pos retries).blockNum = wire (pos + W + 1) := by
        rw [streamStateIn, hw]
      rw [if_neg (by omega), if_pos hmore]
      simp only
      rw [heof, hcursor, hblock, hw, nextWindowStreaming_eq mode hb hW hmore]
      rfl
    · rw [if_pos (by unfold windowLen; omega), if_neg hmore]
      rfl
  · have hne : waitForAckWithDuplicateHandling (wire (pos + windowLen b file W pos)) r
        ≠ .ok true := fun h => hack ((waitForAckWithDuplicateHandling_eq_ok_true_iff _ _).mp h)
    rw [if_neg (fun h => hack (hacked.mp h))]
    split
    · rename_i h; exact absurd h hne
    · have hsend : sendWindowStreaming { streamStateIn mode b file W pos retries with
          retries := (streamStateIn mode b file W pos retries).retries + 1 } = _ :=
        sendWindowStreaming_eq mode b file W pos (retries + 1)
      rw [hsend]
      by_cases hmore : retries + 1 < maxRetries
      · rw [if_pos hmore, if_pos hmore]
        rfl
      · rw [if_neg hmore, if_neg hmore]
        rfl

/-- **The streaming sender is the window sender over the packets of its mode.** -/
theorem streamingIn_simulates (mode : TransferMode) {b W : Nat} (hb : 0 < b) (hW : 0 < W)
    {file : Bytes} (hfile : file ≠ []) :
    Machine.Simulates (WindowSender.machine acksPacket (streamPackets mode b file) W maxRetries)
      (sendFileDataStreaming file file.length mode b W) (streamStatusIn mode b file W)
      (WindowSender.Valid (streamPackets mode b file) maxRetries) where
  start := by
    have h := nextWindowStreaming_eq mode hb hW (blockCount_pos b file)
    rw [Nat.zero_mul] at h
    simp only [sendFileDataStreaming, List.length_eq_zero_iff, if_neg hfile]
    exact h
  running := by intro s; cases s <;> rfl
  step := by
    intro s r hs hrun
    cases s with
    | finished => cases hrun
    | gaveUp pos => cases hrun
    | awaiting pos retries => exact streamingStep_eq mode hb hW (by simpa using hs.1) r
  inv_start := WindowSender.valid_start (streamPackets_ne_nil mode b file) (by decide)
  inv_step := fun _ r hs _ => WindowSender.valid_step hs r

/-! ## The streaming sender in octet mode -/

def streamEntry (b : Nat) (file : Bytes) (i : Nat) : StreamPacket :=
  ⟨wire (i + 1), segPacket b file i, (block b file i).length,
    decide ((block b file i).length < b)⟩

/-- The variables of `send_file_data_streaming` with the window at `pos` in flight. -/
def streamState (b : Nat) (file : Bytes) (W pos retries : Nat) : StreamState where
  cursor := min file.length ((pos + windowLen b file W pos) * b)
  blockNum := wire (pos + windowLen b file W pos + 1)
  windowStartBlock := wire (pos + 1)
  bytesTransferred := pos * b
  eofReached := decide (blockCount b file ≤ pos + W)
  windowPackets := (List.range' pos (windowLen b file W pos)).map (streamEntry b file)
  retries := retries

/-- The concrete state of an abstract one. -/
def streamStatus (b : Nat) (file : Bytes) (W : Nat) : WindowSender.State → SendStatus StreamState
  | .awaiting pos retries => .awaiting (streamState b file W pos retries)
  | .finished => .done (.completed file.length (wire (blockCount b file)))
  | .gaveUp pos => .done (.maxRetriesExceeded (wire (pos + 1)))

theorem streamedBytes_octet (b : Nat) (file : Bytes) (n : Nat) :
    streamedBytes .octet b file n = min file.length (n * b) := by
  induction n with
  | zero => simp [streamedBytes]
  | succ n ih =>
      have hoctet : blockDataStreaming .octet (block b file n) = block b file n := rfl
      have hmul : (n + 1) * b = n * b + b := by ring
      rw [streamedBytes_succ, ih, hoctet, length_block, hmul]
      omega

theorem streamStateIn_octet {b : Nat} (hb : 0 < b) {file : Bytes} {W pos : Nat}
    (hpos : pos < blockCount b file) (retries : Nat) :
    streamStateIn .octet b file W pos retries = streamState b file W pos retries := by
  have hbytes : streamedBytes .octet b file pos = pos * b := by
    rw [streamedBytes_octet, Nat.min_eq_right ((lt_blockCount_iff hb file pos).mp hpos)]
  rw [streamStateIn, streamState, hbytes]
  rfl

theorem streamPackets_octet (b : Nat) (file : Bytes) :
    streamPackets .octet b file = segPackets b file := rfl

theorem streamStatusIn_octet {b : Nat} (hb : 0 < b) {file : Bytes} {W : Nat}
    {s : WindowSender.State}
    (hs : ∀ pos retries, s = .awaiting pos retries → pos < blockCount b file) :
    streamStatusIn .octet b file W s = streamStatus b file W s := by
  cases s with
  | awaiting pos retries =>
      rw [streamStatusIn, streamStatus, streamStateIn_octet hb (hs pos retries rfl)]
  | finished =>
      have hend : file.length ≤ blockCount b file * b := by
        have := (lt_blockCount_iff hb file (blockCount b file)).not.mp (Nat.lt_irrefl _)
        omega
      rw [streamStatusIn, streamStatus, streamedBytes_octet, Nat.min_eq_left hend]
  | gaveUp pos => rfl

theorem sendFileDataStreamingStep_eq {b W : Nat} (hb : 0 < b) (hW : 0 < W) {file : Bytes}
    {pos retries : Nat} (hpos : pos < blockCount b file) (r : Recv) :
    sendFileDataStreamingStep file .octet b W (.awaiting (streamState b file W pos retries)) r
      = (streamStatus b file W (WindowSender.step acksPacket (segPackets b file) W maxRetries
            (.awaiting pos retries) r).1,
          (WindowSender.step acksPacket (segPackets b file) W maxRetries
            (.awaiting pos retries) r).2) := by
  have hwithin : ∀ pos' retries', (WindowSender.step acksPacket (segPackets b file) W maxRetries
      (.awaiting pos retries) r).1 = .awaiting pos' retries' → pos' < blockCount b file := by
    intro pos' retries' h
    simp only [WindowSender.step, length_segPackets] at h
    split_ifs at h with hacked hmore hretry <;> cases h
    · exact hmore
    · exact hpos
  rw [← streamStateIn_octet hb hpos, streamingStep_eq .octet hb hW hpos, streamPackets_octet,
    streamStatusIn_octet hb hwithin]

/-- **In octet mode these are the packets of the segmentation.** -/
theorem streaming_simulates {b W : Nat} (hb : 0 < b) (hW : 0 < W) {file : Bytes}
    (hfile : file ≠ []) :
    Machine.Simulates (WindowSender.machine acksPacket (segPackets b file) W maxRetries)
      (sendFileDataStreaming file file.length .octet b W) (streamStatus b file W)
      (WindowSender.Valid (segPackets b file) maxRetries) where
  start := by
    rw [(streamingIn_simulates .octet hb hW hfile).start]
    have hstart : streamStatusIn .octet b file W (.awaiting 0 0)
        = streamStatus b file W (.awaiting 0 0) :=
      streamStatusIn_octet hb fun pos retries h => by cases h; exact blockCount_pos b file
    exact congrArg (·, _) hstart
  running := by intro s; cases s <;> rfl
  step := by
    intro s r hs hrun
    cases s with
    | finished => cases hrun
    | gaveUp pos => cases hrun
    | awaiting pos retries =>
        exact sendFileDataStreamingStep_eq hb hW (by simpa using hs.1) r
  inv_start := WindowSender.valid_start (segPackets_ne_nil b file) (by decide)
  inv_step := fun _ r hs _ => WindowSender.valid_step hs r

/-! ## Empty files -/

/-- One turn of the wait either ends the sender or uses up a retry. -/
theorem awaitEmpty_cases {σ : Type} (retry : Nat) (r : Recv) :
    (∃ e, (awaitEmpty retry r : SendStatus σ) = .done e) ∨ (retry + 1 < maxRetries ∧
      (awaitEmpty retry r : SendStatus σ) = .awaitingEmpty (retry + 1)) := by
  unfold awaitEmpty waitForAck
  split
  · exact Or.inl ⟨_, rfl⟩
  · exact Or.inl ⟨_, rfl⟩
  · rename_i h
    right
    split at h
    · split_ifs at h with hlt
      exact ⟨hlt, rfl⟩
    · rename_i hne
      exact absurd h hne

section

variable {σ : Type} {m : Machine (SendStatus σ) Recv Bytes}
  (hrunning : m.running = SendStatus.running)
  (hstep : ∀ retry r, m.step (.awaitingEmpty retry) r = (awaitEmpty retry r, []))

include hrunning hstep

/-- The wait for the single packet of an empty file sends nothing; it ends within
`maxRetries` replies. -/
theorem events_awaitingEmpty :
    ∀ (rs : List Recv) (retry : Nat), retry < maxRetries →
      (∃ used : List Recv, used.length + retry ≤ maxRetries ∧
        m.events (.awaitingEmpty retry) rs = used.map .input) ∧
      (maxRetries ≤ rs.length + retry → m.running (m.exec (.awaitingEmpty retry) rs) = false) := by
  intro rs
  induction rs with
  | nil =>
      intro retry hretry
      exact ⟨⟨[], by simp; omega, rfl⟩, fun h => by simp at h; omega⟩
  | cons r rs ih =>
      intro retry hretry
      have hrun : m.running (.awaitingEmpty retry) = true := by rw [hrunning]; rfl
      rw [Machine.events_cons_running hrun, Machine.exec_cons_running hrun, hstep]
      rcases awaitEmpty_cases (σ := σ) retry r with ⟨e, he⟩ | ⟨hlt, he⟩
      · have hstop : m.running (.done e) = false := by rw [hrunning]; rfl
        rw [he, Machine.events_stopped hstop, Machine.exec_stopped hstop]
        exact ⟨⟨[r], by simp; omega, rfl⟩, fun _ => hstop⟩
      · rw [he]
        obtain ⟨⟨used, hused, hev⟩, hdone⟩ := ih (retry + 1) hlt
        refine ⟨⟨r :: used, by simp only [List.length_cons]; omega, ?_⟩, fun h => ?_⟩
        · rw [hev]; rfl
        · exact hdone (by simp only [List.length_cons] at h; omega)

end

/-! ## The trace of a transfer -/

/-- **The sender sends the segmentation.** Whatever replies it reads, the sender returns, and
what it has sent by then is a sequence of groups: windows of at most `W` consecutive packets
of the segmentation, each sent `1` to `maxRetries` times, the next one only after an ACK of
the last packet of the one before, and together the whole segmentation unless a group used
up its attempts. -/
def SendsSegmentation {σ : Type} (m : Machine σ Recv Bytes) (b W : Nat) (file : Bytes) : Prop :=
  ∀ replies : Nat → Recv, ∃ n gs,
    m.running (m.stateAfter ((List.range n).map replies)) = false ∧
    WindowSender.Grouped acksPacket (segPackets b file) W maxRetries gs ∧
    m.trace ((List.range n).map replies) = gs.flatMap WindowSender.Group.events

theorem sendsSegmentation_of_simulates {σ : Type} {m : Machine σ Recv Bytes} {b W : Nat}
    {file : Bytes} {γ : WindowSender.State → σ} (hW : 0 < W)
    (h : Machine.Simulates (WindowSender.machine acksPacket (segPackets b file) W maxRetries) m γ
      (WindowSender.Valid (segPackets b file) maxRetries)) : SendsSegmentation m b W file := by
  intro replies
  obtain ⟨n, hdone⟩ : ∃ n, WindowSender.running
      ((WindowSender.machine acksPacket (segPackets b file) W maxRetries).stateAfter
        ((List.range n).map replies)) = false :=
    WindowSender.stateAfter_done hW (segPackets_ne_nil b file) (by decide) replies
  obtain ⟨gs, hgs, htrace⟩ := WindowSender.trace_groups hW (segPackets_ne_nil b file)
    (by decide) _ hdone
  refine ⟨n, gs, ?_, hgs, ?_⟩
  · rw [h.stateAfter, h.running]
    exact hdone
  · rw [h.trace, htrace]

theorem segPackets_nil (b : Nat) : segPackets b [] = [emptyFilePacket] := by
  simp [segPackets, blockCount, segPacket, block, emptyFilePacket, wire_one]

theorem sendsSegmentation_nil {σ : Type} {m : Machine (SendStatus σ) Recv Bytes} {b W : Nat}
    (hW : 0 < W) (hrunning : m.running = SendStatus.running)
    (hstart : m.start = (.awaitingEmpty 0, [emptyFilePacket]))
    (hstep : ∀ retry r, m.step (.awaitingEmpty retry) r = (awaitEmpty retry r, [])) :
    SendsSegmentation m b W [] := by
  intro replies
  obtain ⟨⟨used, -, hev⟩, hdone⟩ := events_awaitingEmpty hrunning hstep
    ((List.range maxRetries).map replies) 0 (by decide)
  refine ⟨maxRetries, [⟨[emptyFilePacket], [used]⟩], ?_, ?_, ?_⟩
  · rw [Machine.stateAfter, hstart]
    exact hdone (by simp)
  · rw [segPackets_nil]
    refine ⟨?_, ?_, List.isChain_singleton _, ?_, Or.inl rfl⟩
    · intro g hg
      rw [List.mem_singleton.mp hg]
      exact ⟨List.cons_ne_nil _ _, hW⟩
    · intro g hg
      rw [List.mem_singleton.mp hg]
      exact ⟨Nat.le_refl _, by simp [maxRetries]⟩
    · exact List.prefix_rfl
  · rw [Machine.trace, hstart, hev]
    simp [WindowSender.Group.events]

/-- **Both senders send the segmentation of the file**, in which every payload has at most
`b` bytes and only the last one is shorter. -/
theorem senders_send_segmentation (file : Bytes) (b W : Nat) (hb : 8 ≤ b ∧ b ≤ 65464)
    (hW : 1 ≤ W ∧ W ≤ 65535) :
    SendsSegmentation (sendFileDataBuffered file b W) b W file ∧
    SendsSegmentation (sendFileDataStreaming file file.length .octet b W) b W file ∧
    ∀ i, i < blockCount b file → (segPackets b file)[i]? = some (segPacket b file i) ∧
      (block b file i).length ≤ b ∧
      ((block b file i).length < b ↔ i + 1 = blockCount b file) := by
  have hb' : 0 < b := by omega
  refine ⟨?_, ?_, fun i hi => ⟨getElem?_segPackets hi, length_block_le _ _ _,
    length_block_lt_iff hb' file hi⟩⟩
  · by_cases hfile : file = []
    · subst hfile
      exact sendsSegmentation_nil hW.1 rfl rfl (fun _ _ => rfl)
    · exact sendsSegmentation_of_simulates hW.1 (buffered_simulates hb' hW.1 hfile)
  · by_cases hfile : file = []
    · subst hfile
      exact sendsSegmentation_nil hW.1 rfl rfl (fun _ _ => rfl)
    · exact sendsSegmentation_of_simulates hW.1 (streaming_simulates hb' hW.1 hfile)

/-- Sixteen bytes in blocks of eight are three packets, the last one empty. -/
theorem senders_send_segmentation_sixteen :
    segPackets 8 (List.replicate 16 65) = [dataPacket 1 (List.replicate 8 65),
      dataPacket 2 (List.replicate 8 65), dataPacket 3 []] ∧
    SendsSegmentation (sendFileDataBuffered (List.replicate 16 65) 8 2) 8 2
      (List.replicate 16 65) :=
  ⟨by decide, (senders_send_segmentation (List.replicate 16 65) 8 2 (by decide) (by decide)).1⟩

end UsgTftp
