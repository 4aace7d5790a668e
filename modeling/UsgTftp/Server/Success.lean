import UsgTftp.Lib.Success
import UsgTftp.Server.SendTrace

set_option autoImplicit false

/-! # Transfers in which every wait succeeds

What the server's senders put on the wire if they never have to send a window again: the
buffered sender the segmentation of its data (`buffered_sendsWhen`), the streaming sender one
packet for each block of the file (`streaming_sendsWhen`). In NETASCII mode the two differ, and
`streaming_netascii_agrees_iff` says for which files.
-/

namespace UsgTftp

open Reactive Segment SeqNum

/-! ## Successful waits -/

/-- `last_block_in_window`. -/
def BufferedState.lastBlockInWindow (s : BufferedState) : Option UInt16 :=
  s.windowPackets.getLast?.map (·.blockNum)

def StreamState.lastBlockInWindow (s : StreamState) : Option UInt16 :=
  s.windowPackets.getLast?.map (·.blockNum)

/-- What is received does not make the wait fail. The wait for the packet of an empty file reads
on until it succeeds or its turns are used up. -/
def AckSucceeds {σ : Type} (lastBlock : σ → Option UInt16) : SendStatus σ → Recv → Prop
  | .awaitingEmpty retry, r => ∀ e, waitForAck 1 retry r ≠ .failed e
  | .awaiting s, r => ∃ n, lastBlock s = some n ∧ waitForAckWithDuplicateHandling n r = .ok true
  | .done _, _ => True

theorem ackSucceeds_awaiting {σ : Type} {lastBlock : σ → Option UInt16} {s : σ} {n : UInt16}
    (hlast : lastBlock s = some n) (r : Recv) :
    AckSucceeds lastBlock (.awaiting s) r ↔ IsAck n r := by
  rw [← waitForAckWithDuplicateHandling_eq_ok_true_iff, AckSucceeds]
  constructor
  · rintro ⟨m, hm, hr⟩
    rw [hlast, Option.some_inj] at hm
    rw [hm]
    exact hr
  · exact fun hr => ⟨n, hlast, hr⟩

/-- An empty file is one empty packet. -/
theorem sendsWhen_empty {σ : Type} {m : Machine (SendStatus σ) Recv Bytes}
    (lastBlock : σ → Option UInt16) (hrunning : m.running = SendStatus.running)
    (hstart : m.start = (.awaitingEmpty 0, [emptyFilePacket]))
    (hstep : ∀ retry r, m.step (.awaitingEmpty retry) r = (awaitEmpty retry r, [])) :
    m.SendsWhen (AckSucceeds lastBlock) [emptyFilePacket] := by
  refine Machine.SendsWhen.of_rank
    (fun n rest s => rest = [] ∧ ((∃ retry, s = .awaitingEmpty retry ∧ retry < maxRetries ∧
        n = maxRetries - retry) ∨ ∃ e, s = .done e))
    ⟨rfl, Or.inl ⟨0, by rw [hstart], by decide, rfl⟩⟩ (by rw [hstart]; rfl) ?_ ?_ ?_
  · rintro n rest s ⟨rfl, -⟩ -
    rfl
  · rintro n rest s ⟨-, ⟨retry, rfl, -⟩ | ⟨e, rfl⟩⟩ hrun
    · refine ⟨.datagram (ackPacket 1), fun e => ?_⟩
      rw [waitForAck_ack]
      exact nofun
    · rw [hrunning] at hrun
      cases hrun
  · rintro n rest s r ⟨rfl, ⟨retry, rfl, hretry, rfl⟩ | ⟨e, rfl⟩⟩ hrun -
    · rw [hstep]
      rcases awaitEmpty_cases (σ := σ) retry r with ⟨e, he⟩ | ⟨hlt, he⟩
      · exact ⟨0, [], by omega, rfl, rfl, Or.inr ⟨e, he⟩⟩
      · exact ⟨maxRetries - (retry + 1), [], by omega, rfl, rfl,
          Or.inl ⟨retry + 1, he, hlt, rfl⟩⟩
    · rw [hrunning] at hrun
      cases hrun

/-- **The buffered sender sends the segmentation of its data.** -/
theorem buffered_sendsWhen (fileData : Bytes) {b W : Nat} (hb : 0 < b) (hW : 0 < W) :
    (sendFileDataBuffered fileData b W).SendsWhen
      (AckSucceeds BufferedState.lastBlockInWindow) (segPackets b fileData) := by
  by_cases hfile : fileData = []
  · subst hfile
    rw [segPackets_nil]
    exact sendsWhen_empty _ rfl rfl fun _ _ => rfl
  · refine WindowSender.sendsWhen hW (segPackets_ne_nil b fileData) (by decide)
      (buffered_simulates hb hW hfile) (fun pos retries r hpos => ?_) (fun pos hpos => ?_)
    · rw [length_segPackets] at hpos
      have hlast : (bufferedState b fileData W pos retries).lastBlockInWindow
          = some (wire (pos + windowLen b fileData W pos)) := by
        have hlen := windowLen_pos hW hpos
        rw [BufferedState.lastBlockInWindow, bufferedState, getLast?_range'_map _ hlen,
          Option.map_some, bufferedEntry,
          show pos + windowLen b fileData W pos - 1 + 1 = pos + windowLen b fileData W pos by omega]
      rw [bufferedStatus, ackSucceeds_awaiting hlast, acked_segPackets hW hpos]
    · rw [length_segPackets] at hpos
      exact ⟨_, acked_ackPacket hW hpos rfl⟩

theorem streamPackets_nil (mode : TransferMode) (b : Nat) :
    streamPackets mode b [] = [emptyFilePacket] := by
  cases mode <;> simp [streamPackets, blockCount, streamPacket, blockDataStreaming, block,
    emptyFilePacket, wire_one, convertToNetascii]

/-- **The streaming sender sends one packet for each block of the file.** -/
theorem streaming_sendsWhen (mode : TransferMode) (file : Bytes) {b W : Nat} (hb : 0 < b)
    (hW : 0 < W) :
    (sendFileDataStreaming file file.length mode b W).SendsWhen
      (AckSucceeds StreamState.lastBlockInWindow) (streamPackets mode b file) := by
  by_cases hfile : file = []
  · subst hfile
    rw [streamPackets_nil]
    exact sendsWhen_empty _ rfl rfl fun _ _ => rfl
  · refine WindowSender.sendsWhen hW (streamPackets_ne_nil mode b file) (by decide)
      (streamingIn_simulates mode hb hW hfile) (fun pos retries r hpos => ?_)
      (fun pos hpos => ?_)
    · rw [length_streamPackets] at hpos
      have hlast : (streamStateIn mode b file W pos retries).lastBlockInWindow
          = some (wire (pos + windowLen b file W pos)) := by
        have hlen := windowLen_pos hW hpos
        rw [StreamState.lastBlockInWindow, streamStateIn, getLast?_range'_map _ hlen,
          Option.map_some, streamEntryIn,
          show pos + windowLen b file W pos - 1 + 1 = pos + windowLen b file W pos by omega]
      rw [streamStatusIn, ackSucceeds_awaiting hlast]
      exact (acked_numbered _ hW hpos r).symm
    · rw [length_streamPackets] at hpos
      exact ⟨.datagram (ackPacket (wire (pos + windowLen b file W pos))),
        (acked_numbered _ hW hpos _).mpr (isAck_ackPacket.mpr rfl)⟩

/-! ## The streaming sender in NETASCII mode -/

theorem streamPackets_netascii (b : Nat) (file : Bytes) :
    streamPackets .netascii b file
      = dataPackets ((Segment.segment b file).map convertToNetascii) := by
  rw [Segment.segment, List.map_map, dataPackets_map_range]
  rfl

/-- Both senders send the same blocks just if the converted blocks end on a short one. -/
theorem senders_agree_iff (file : Bytes) {b W : Nat} (hb : 0 < b) (hW : 0 < W) :
    (∃ payloads, EndsShort b payloads ∧
      (sendFileDataBuffered (convertToNetascii file) b W).SendsWhen
        (AckSucceeds BufferedState.lastBlockInWindow) (dataPackets payloads) ∧
      (sendFileDataStreaming file file.length .netascii b W).SendsWhen
        (AckSucceeds StreamState.lastBlockInWindow) (dataPackets payloads)) ↔
    EndsShort b ((Segment.segment b file).map convertToNetascii) := by
  have hbuffered := buffered_sendsWhen (convertToNetascii file) hb hW
  have hstreaming := streaming_sendsWhen .netascii file hb hW
  rw [segPackets_eq_dataPackets] at hbuffered
  rw [streamPackets_netascii] at hstreaming
  constructor
  · rintro ⟨payloads, hends, -, hpayloads⟩
    rw [← dataPackets_inj.mp (hpayloads.unique hstreaming)]
    exact hends
  · intro hends
    have hsegment := hends.segment_flatten hb
    rw [← convertToNetascii_flatten, flatten_segment hb] at hsegment
    rw [hsegment] at hbuffered
    exact ⟨_, hends, hbuffered, hstreaming⟩

theorem mem_take_whole_blocks {b : Nat} {file : Bytes} {c : UInt8} :
    c ∈ file.take (file.length / b * b) ↔ ∃ i, i < file.length / b ∧ c ∈ block b file i := by
  have hcount : file.length / b ≤ blockCount b file := Nat.le_succ _
  have htake : (Segment.segment b file).take (file.length / b)
      = (List.range (file.length / b)).map (block b file) := by
    rw [Segment.segment, ← List.map_take, List.take_range, Nat.min_eq_left hcount]
  rw [← flatten_take_segment file hcount, htake]
  simp only [List.mem_flatten, List.mem_map, List.mem_range]
  constructor
  · rintro ⟨-, ⟨i, hi, rfl⟩, hc⟩
    exact ⟨i, hi, hc⟩
  · rintro ⟨i, hi, hc⟩
    exact ⟨_, ⟨i, hi, rfl⟩, hc⟩

/-- The converted blocks: the whole ones must have nothing to convert, and the last one must stay
short. -/
theorem endsShort_map_convertToNetascii {b : Nat} (hb : 0 < b) (file : Bytes) :
    EndsShort b ((Segment.segment b file).map convertToNetascii) ↔
      (∀ c ∈ file.take (file.length / b * b), c ≠ lf ∧ c ≠ cr) ∧
      (convertToNetascii (file.drop (file.length / b * b))).length < b := by
  have hlast : block b file (file.length / b) = file.drop (file.length / b * b) := by
    rw [block, List.take_of_length_le]
    have := Nat.div_add_mod' file.length b
    have := Nat.mod_lt file.length hb
    rw [List.length_drop]
    omega
  rw [Segment.segment, blockCount, List.range_succ, List.map_append, List.map_append,
    List.map_singleton, List.map_singleton, endsShort_append_singleton, hlast]
  refine and_congr_left fun _ => ?_
  simp only [List.forall_mem_map, List.mem_range, mem_take_whole_blocks]
  have hwhole : ∀ i, i < file.length / b → ((convertToNetascii (block b file i)).length = b ↔
      ∀ c ∈ block b file i, c ≠ lf ∧ c ≠ cr) := by
    intro i hi
    have hfull := length_block_of_lt hb file (i := i) (Nat.succ_lt_succ hi)
    rw [length_convertToNetascii, hfull, Nat.add_eq_left, List.countP_eq_zero]
    simp only [decide_eq_true_eq, not_or]
  constructor
  · rintro h c ⟨i, hi, hc⟩
    exact (hwhole i hi).mp (h i hi) c hc
  · exact fun h i hi => (hwhole i hi).mpr fun c hc => h c ⟨i, hi, hc⟩

/-- **Where the streaming sender agrees with the buffered one.** The streaming sender converts
each block that it reads by itself and puts the result into one packet: the packets are those of
the converted file just if no whole block has an LF or a CR, and the rest of the file, with one
byte more for each of them, is still shorter than a block. -/
theorem streaming_netascii_agrees_iff (x : Bytes) {b W : Nat} (hb : 0 < b)
    (hW : 1 ≤ W ∧ W ≤ 65535) :
    (∃ payloads, EndsShort b payloads ∧
      (sendFileDataBuffered (convertToNetascii x) b W).SendsWhen
        (AckSucceeds BufferedState.lastBlockInWindow) (dataPackets payloads) ∧
      (sendFileDataStreaming x x.length .netascii b W).SendsWhen
        (AckSucceeds StreamState.lastBlockInWindow) (dataPackets payloads)) ↔
    (∀ c ∈ x.take (x.length / b * b), c ≠ lf ∧ c ≠ cr) ∧
      x.length % b + (x.drop (x.length / b * b)).countP (fun c => c = lf ∨ c = cr) < b := by
  have hrest : (x.drop (x.length / b * b)).length = x.length % b := by
    have := Nat.div_add_mod' x.length b
    rw [List.length_drop]
    omega
  rw [senders_agree_iff x hb hW.1, endsShort_map_convertToNetascii hb, length_convertToNetascii,
    hrest]

/-- Three letters and an LF: both send the five bytes in one short packet. -/
theorem streaming_netascii_agrees_short :
    ∃ payloads, EndsShort 8 payloads ∧
      (sendFileDataBuffered (convertToNetascii [97, 98, 99, lf]) 8 1).SendsWhen
        (AckSucceeds BufferedState.lastBlockInWindow) (dataPackets payloads) ∧
      (sendFileDataStreaming [97, 98, 99, lf] 4 .netascii 8 1).SendsWhen
        (AckSucceeds StreamState.lastBlockInWindow) (dataPackets payloads) :=
  (streaming_netascii_agrees_iff [97, 98, 99, lf] (by decide) (by decide)).mpr
    ⟨fun _ hc => absurd hc List.not_mem_nil, by decide +kernel⟩

/-- A file of line feeds, one byte too long to be buffered, in blocks of 512 bytes. -/
theorem streaming_netascii_disagrees :
    ¬∃ payloads, EndsShort 512 payloads ∧
      (sendFileDataBuffered (convertToNetascii (List.replicate 1048577 lf)) 512 1).SendsWhen
        (AckSucceeds BufferedState.lastBlockInWindow) (dataPackets payloads) ∧
      (sendFileDataStreaming (List.replicate 1048577 lf) (List.replicate 1048577 lf).length
        .netascii 512 1).SendsWhen
        (AckSucceeds StreamState.lastBlockInWindow) (dataPackets payloads) := by
  rw [senders_agree_iff _ (by decide) (by decide), endsShort_map_convertToNetascii (by decide)]
  rintro ⟨hwhole, -⟩
  rw [List.length_replicate, List.take_replicate] at hwhole
  exact (hwhole lf (List.mem_replicate.mpr ⟨by decide, rfl⟩)).1 rfl

end UsgTftp
