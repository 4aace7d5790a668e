import UsgTftp.Main.Send

set_option autoImplicit false

/-! # What the senders of `src/main.rs` put on the wire

In transfers in which every wait succeeds both senders send a segmentation: the buffered one that
of its data, the streaming one that of what it makes of its reads (`readContent`). In octet mode
these are the packets of the server's senders (`octet_senders_agree`).
-/

namespace UsgTftp.Main

open Reactive Segment SeqNum

/-! ## Senders that go through a segmentation -/

/-- The number of the block whose acknowledgement is waited for. -/
def Waiting.lastBlock {σ : Type} (last : σ → Option UInt16) : Waiting σ → Option UInt16
  | .window s => last s
  | .emptyBlock blockNum => some blockNum

/-- `last_block_in_window`. -/
def BufferedState.lastBlockInWindow (s : BufferedState) : Option UInt16 :=
  s.windowPackets.getLast?.map (·.blockNum)

def StreamState.lastBlockInWindow (s : StreamState) : Option UInt16 :=
  s.window.windowPackets.getLast?.map (·.blockNum)

/-- The packets of the segmentation from `pos` to some `e` are sent, and the acknowledgement of
the last one is waited for. -/
def Next {σ : Type} (b : Nat) (data : Bytes) (inFlight : Nat → σ → Prop) (pos : Nat)
    (next : SendStatus σ × List Bytes) : Prop :=
  ∃ e w, pos < e ∧ inFlight e w ∧
    next = (.awaiting w, WindowSender.window (segPackets b data) (e - pos) pos)

/-- **A sender that goes through the segmentation sends it**: an acknowledgement of the packets
up to `e` either ends the sender at the last packet, or the next ones are sent. -/
theorem sendsWhen_of_next {σ : Type} {m : Machine (SendStatus σ) Recv Bytes}
    {lastBlock : σ → Option UInt16} {b : Nat} {data : Bytes} (inFlight : Nat → σ → Prop)
    (hrunning : m.running = SendStatus.running)
    (hlast : ∀ e w, inFlight e w → e ≤ blockCount b data ∧ lastBlock w = some (wire e))
    (hstart : Next b data inFlight 0 m.start)
    (hstep : ∀ e w r, inFlight e w → IsAck (wire e) r →
      (e = blockCount b data ∧ ∃ exit, m.step (.awaiting w) r = (.done exit, [])) ∨
      Next b data inFlight e (m.step (.awaiting w) r)) :
    m.SendsWhen (AckSucceeds lastBlock) (segPackets b data) := by
  have hdrop : ∀ {pos e}, pos < e → WindowSender.window (segPackets b data) (e - pos) pos
      ++ (segPackets b data).drop e = (segPackets b data).drop pos := by
    intro pos e he
    have h := WindowSender.window_append_drop (segPackets b data) (e - pos) pos
    rwa [show pos + (e - pos) = e by omega] at h
  obtain ⟨e₀, w₀, he₀, hw₀, hstart⟩ := hstart
  refine Machine.SendsWhen.of_rank
    (fun n rest s => (∃ e w, s = .awaiting w ∧ inFlight e w ∧
        rest = (segPackets b data).drop e ∧ n = blockCount b data + 1 - e) ∨
      ((∃ exit, s = .done exit) ∧ rest = []))
    (Or.inl ⟨e₀, w₀, by rw [hstart], hw₀, rfl, rfl⟩) (by rw [hstart]; exact hdrop he₀) ?_ ?_ ?_
  · rintro n rest s (⟨e, w, rfl, -⟩ | ⟨-, rfl⟩) hrun
    · rw [hrunning] at hrun
      cases hrun
    · rfl
  · rintro n rest s (⟨e, w, rfl, hw, -⟩ | ⟨⟨exit, rfl⟩, -⟩) hrun
    · exact ⟨.datagram (ackPacket (wire e)),
        (ackSucceeds_awaiting (hlast e w hw).2 _).mpr (isAck_ackPacket.mpr rfl)⟩
    · rw [hrunning] at hrun
      cases hrun
  · rintro n rest s r (⟨e, w, rfl, hw, rfl, rfl⟩ | ⟨⟨exit, rfl⟩, -⟩) hrun hok
    · obtain ⟨hle, hnum⟩ := hlast e w hw
      rcases hstep e w r hw ((ackSucceeds_awaiting hnum r).mp hok) with ⟨rfl, exit, hdone⟩ | hnext
      · rw [hdone]
        refine ⟨0, [], by omega, ?_, Or.inr ⟨⟨exit, rfl⟩, rfl⟩⟩
        rw [List.drop_eq_nil_of_le (by rw [length_segPackets]), List.append_nil]
      · obtain ⟨e', w', he', hw', hnext⟩ := hnext
        rw [hnext]
        exact ⟨_, _, by have := (hlast e' w' hw').1; omega, hdrop he',
          Or.inl ⟨e', w', rfl, hw', rfl, rfl⟩⟩
    · rw [hrunning] at hrun
      cases hrun

section

variable {σ : Type} {b : Nat} {data : Bytes} {inFlight : Nat → Waiting σ → Prop} {pos : Nat}

/-- Behind whole blocks only, the empty block is the last one of the segmentation. -/
theorem next_emptyBlock (hb : 0 < b) (hend : data.length = pos * b)
    (hlast : inFlight (pos + 1) (.emptyBlock (wire (pos + 1)))) :
    Next b data inFlight pos (sendEmptyBlock (wire (pos + 1))) := by
  have hpos : pos < blockCount b data := (lt_blockCount_iff hb data pos).mpr hend.ge
  refine ⟨pos + 1, _, Nat.lt_succ_self pos, hlast, ?_⟩
  have hlen : windowLen b data (pos + 1 - pos) pos = 1 := by unfold windowLen; omega
  have hempty : block b data pos = [] := by
    rw [block, List.drop_eq_nil_of_le hend.le, List.take_nil]
  rw [window_segPackets, hlen, sendEmptyBlock]
  simp [segPacket, hempty]

theorem blockCount_of_whole (hb : 0 < b) (hend : data.length = pos * b) :
    blockCount b data = pos + 1 := by
  rw [blockCount, hend, Nat.mul_div_cancel _ hb]

/-- The packets of a window of `n` blocks. -/
theorem window_blocks {n : Nat} (hle : pos + n ≤ blockCount b data) :
    WindowSender.window (segPackets b data) (pos + n - pos) pos
      = (List.range' pos n).map (segPacket b data) := by
  have hlen : windowLen b data (pos + n - pos) pos = n := by unfold windowLen; omega
  rw [window_segPackets, hlen]

end

/-! ## The buffered sender -/

/-- The window of `n` blocks at `pos` is in flight. -/
structure BufferedAt (b : Nat) (fileData : Bytes) (pos n : Nat) (s : BufferedState) : Prop where
  offset : s.offset = pos * b
  blockNum : s.blockNum = wire (pos + 1)
  packets : s.windowPackets = (List.range' pos n).map (bufferedEntry b fileData)
  pos_lt : 0 < n
  within : pos + n ≤ blockCount b fileData

/-- The packets up to `e` have been sent. -/
inductive BufferedInFlight (b : Nat) (fileData : Bytes) : Nat → Waiting BufferedState → Prop where
  | window {pos n : Nat} {s : BufferedState} (h : BufferedAt b fileData pos n s) :
      BufferedInFlight b fileData (pos + n) (.window s)
  | emptyBlock : BufferedInFlight b fileData (blockCount b fileData)
      (.emptyBlock (wire (blockCount b fileData)))

/-- The window loop stops behind the last byte: it makes whole blocks and at most one short one,
but no empty one. -/
theorem buildWindowBuffered_eq {b : Nat} (hb : 0 < b) (fileData : Bytes) :
    ∀ (room pos : Nat), ∃ n,
      buildWindowBuffered fileData b room (pos * b) (wire (pos + 1))
        = (List.range' pos n).map (bufferedEntry b fileData) ∧
      (0 < n → pos + n ≤ blockCount b fileData) ∧
      (0 < room → pos * b < fileData.length → 0 < n) := by
  intro room
  induction room with
  | zero => exact fun pos => ⟨0, rfl, fun h => absurd h (by omega), fun h => absurd h (by omega)⟩
  | succ room ih =>
      intro pos
      by_cases hlt : pos * b < fileData.length
      · have hpos : pos < blockCount b fileData := (lt_blockCount_iff hb fileData pos).mpr hlt.le
        have hlen := length_block b fileData pos
        have hdata : (fileData.drop (pos * b)).take (min b (fileData.length - pos * b))
            = block b fileData pos := by
          rw [block, List.take_eq_take_iff]
          simp
        have hentry : (⟨wire (pos + 1), dataPacket (wire (pos + 1)) (block b fileData pos),
            min b (fileData.length - pos * b)⟩ : WindowPacket) = bufferedEntry b fileData pos := by
          rw [bufferedEntry, segPacket, hlen]
        simp only [buildWindowBuffered]
        rw [if_pos hlt, hdata, hentry, ← hlen]
        by_cases hshort : (block b fileData pos).length < b
        · exact ⟨1, by rw [if_pos hshort]; rfl, fun _ => hpos, fun _ _ => Nat.one_pos⟩
        · have hfull : (block b fileData pos).length = b := by
            have := length_block_le b fileData pos
            omega
          obtain ⟨n, hn, hle, -⟩ := ih (pos + 1)
          refine ⟨n + 1, ?_, fun _ => ?_, fun _ _ => Nat.succ_pos n⟩
          · rw [if_neg hshort, hfull, show pos * b + b = (pos + 1) * b by ring, wire_add_one, hn,
              List.range'_succ, List.map_cons]
          · by_cases hn' : 0 < n
            · have := hle hn'
              omega
            · omega
      · simp only [buildWindowBuffered]
        rw [if_neg hlt]
        exact ⟨0, rfl, fun h => absurd h (by omega), fun _ h => absurd h hlt⟩

theorem nextWindowBuffered_next {b W : Nat} (hb : 0 < b) (hW : 0 < W) {fileData : Bytes}
    {pos : Nat} (hpos : pos < blockCount b fileData) :
    Next b fileData (BufferedInFlight b fileData) pos
      (nextWindowBuffered fileData b W (pos * b) (wire (pos + 1))) := by
  have hstart := (lt_blockCount_iff hb fileData pos).mp hpos
  rw [nextWindowBuffered]
  by_cases hlt : pos * b < fileData.length
  · obtain ⟨n, hbuild, hle, hn⟩ := buildWindowBuffered_eq hb fileData W pos
    have hn := hn hW hlt
    have hne : (List.range' pos n).map (bufferedEntry b fileData) ≠ [] := by
      simp only [ne_eq, List.map_eq_nil_iff, List.range'_eq_nil_iff]
      omega
    simp only
    rw [if_pos hlt, hbuild, if_neg hne]
    refine ⟨pos + n, .window ⟨pos * b, wire (pos + 1), _, 0⟩, by omega,
      .window ⟨rfl, rfl, rfl, hn, hle hn⟩, ?_⟩
    rw [sendWindowBuffered, if_neg (by simp [maxRetries]), window_blocks (hle hn), List.map_map]
    rfl
  · have hend : fileData.length = pos * b := by omega
    rw [if_neg hlt]
    refine next_emptyBlock hb hend ?_
    rw [← blockCount_of_whole hb hend]
    exact .emptyBlock

theorem BufferedAt.last {b : Nat} {fileData : Bytes} {pos n : Nat} {s : BufferedState}
    (h : BufferedAt b fileData pos n s) :
    ∃ entry, s.windowPackets.getLast? = some entry ∧ entry.blockNum = wire (pos + n) := by
  refine ⟨_, by rw [h.packets, getLast?_range'_map _ h.pos_lt], ?_⟩
  have := h.pos_lt
  rw [bufferedEntry, show pos + n - 1 + 1 = pos + n by omega]

theorem mainBufferedStep_window {b W : Nat} (hb : 0 < b) (hW : 0 < W) {fileData : Bytes}
    {pos n : Nat} {s : BufferedState} (h : BufferedAt b fileData pos n s) {r : Recv}
    (hr : IsAck (wire (pos + n)) r) :
    (pos + n = blockCount b fileData ∧
      ∃ exit, sendFileDataBufferedStep fileData b W (.awaiting (.window s)) r
        = (.done exit, [])) ∨
    Next b fileData (BufferedInFlight b fileData) (pos + n)
      (sendFileDataBufferedStep fileData b W (.awaiting (.window s)) r) := by
  obtain ⟨entry, hentry, hnum⟩ := h.last
  have hn := h.pos_lt
  have hle := h.within
  simp only [sendFileDataBufferedStep, hentry, hnum,
    (waitForAckWithDuplicateHandling_eq_ok_true_iff _ _).mpr hr]
  rw [h.packets, h.offset, h.blockNum, advanceBuffered_eq hb fileData n pos (by omega) hn hle]
  by_cases hlast : pos + n = blockCount b fileData
  · rw [if_pos hlast]
    exact Or.inl ⟨hlast, _, rfl⟩
  · rw [if_neg hlast]
    exact Or.inr (nextWindowBuffered_next hb hW (by omega))

/-- **The buffered sender sends the segmentation of its data.** -/
theorem mainBuffered_sendsWhen (fileData : Bytes) {b W : Nat} (hb : 0 < b) (hW : 0 < W) :
    (sendFileDataBuffered fileData b W).SendsWhen
      (AckSucceeds (Waiting.lastBlock BufferedState.lastBlockInWindow))
      (segPackets b fileData) := by
  by_cases hfile : fileData = []
  · subst hfile
    rw [segPackets_nil]
    exact sendsWhen_empty _ rfl rfl fun _ _ => rfl
  · refine sendsWhen_of_next (BufferedInFlight b fileData) rfl ?_ ?_ ?_
    · rintro e w (h | -)
      · obtain ⟨entry, hentry, hnum⟩ := h.last
        refine ⟨h.within, ?_⟩
        rw [Waiting.lastBlock, BufferedState.lastBlockInWindow, hentry, Option.map_some, hnum]
      · exact ⟨Nat.le_refl _, rfl⟩
    · have h := nextWindowBuffered_next hb hW (blockCount_pos b fileData)
      rw [Nat.zero_mul] at h
      simp only [sendFileDataBuffered, if_neg hfile]
      exact h
    · rintro e w r (h | -) hr
      · exact mainBufferedStep_window hb hW h hr
      · refine Or.inl ⟨rfl, .loopEnded, ?_⟩
        simp only [sendFileDataBuffered, sendFileDataBufferedStep, awaitEmptyBlock,
          (waitForAckWithDuplicateHandling_eq_ok_true_iff _ _).mpr hr]

/-! ## The streaming sender -/

/-- What is made of a read. -/
def blockContent (mode : TransferMode) (read : Bytes) : Bytes :=
  if mode = .netascii then convertToNetascii read else read

/-- What is made of all the reads of a file. -/
def readContent (mode : TransferMode) (b : Nat) (file : Bytes) : Bytes :=
  ((Segment.segment b file).map (blockContent mode)).flatten

section

variable {mode : TransferMode} {b : Nat} {file data : Bytes}

theorem convertToNetascii_nil : convertToNetascii [] = [] := by
  rw [convertToNetascii, convertToNetasciiIn, if_pos rfl]

theorem blockContent_nil (mode : TransferMode) : blockContent mode [] = [] := by
  rw [blockContent, convertToNetascii_nil, ite_self]

theorem readContent_short (h : file.length < b) :
    readContent mode b file = blockContent mode file := by
  rw [readContent, segment_of_lt h, List.map_singleton, List.flatten_singleton]

/-- The next read, and all behind it. -/
theorem readContent_drop (hb : 0 < b) (cursor : Nat) :
    readContent mode b (file.drop cursor)
      = blockContent mode ((file.drop cursor).take b)
        ++ readContent mode b (file.drop (cursor + ((file.drop cursor).take b).length)) := by
  by_cases hshort : (file.drop cursor).length < b
  · have hend : file.drop (cursor + (file.drop cursor).length) = [] := by
      apply List.drop_eq_nil_of_le
      rw [List.length_drop]
      omega
    rw [List.take_of_length_le hshort.le, hend, readContent_short hshort,
      readContent_short (by exact hb), blockContent_nil, List.append_nil]
  · have hlen : ((file.drop cursor).take b).length = b := by
      rw [List.length_take]
      omega
    have hsplit := List.take_append_drop b (file.drop cursor)
    rw [List.drop_drop] at hsplit
    conv_lhs => rw [← hsplit, readContent, segment_append hb hlen, List.map_cons,
      List.flatten_cons]
    rw [hlen]
    rfl

theorem readContent_netascii (hmode : mode = .netascii) (hb : 0 < b) (file : Bytes)
    (cursor : Nat) :
    readContent mode b (file.drop cursor)
      = convertToNetascii ((file.drop cursor).take b)
        ++ readContent mode b (file.drop (cursor + ((file.drop cursor).take b).length)) := by
  rw [readContent_drop hb, blockContent, if_pos hmode]

theorem readContent_octet (hmode : mode ≠ .netascii) (hb : 0 < b) (file : Bytes) :
    readContent mode b file = file := by
  have hid : blockContent mode = id := funext fun read => if_neg hmode
  rw [readContent, hid, List.map_id, flatten_segment hb]

/-- The first `pos` blocks of the data are in packets, and the rest is still to come, partly in
the buffer and partly out of the file. -/
structure Pending (mode : TransferMode) (b : Nat) (file data : Bytes) (pos cursor : Nat)
    (spillover : Bytes) : Prop where
  content : spillover ++ readContent mode b (file.drop cursor) = data.drop (pos * b)
  pos_le : pos * b ≤ data.length
  octet : mode ≠ .netascii → spillover = []

/-- The window has the `n` blocks of the data at `pos`, and the file is at its end only if there
is nothing behind them. -/
structure Builds (mode : TransferMode) (b : Nat) (file data : Bytes) (pos n : Nat)
    (w : StreamWindow) : Prop where
  packets : w.windowPackets = (List.range' pos n).map (streamEntry b data)
  blockNum : w.blockNum = wire (pos + n + 1)
  within : pos + n ≤ blockCount b data
  more : w.eofReached = false → Pending mode b file data (pos + n) w.cursor w.spillover
  eof : w.eofReached = true → data.length ≤ (pos + n) * b

theorem Builds.push {pos n : Nat} {w : StreamWindow} (h : Builds mode b file data (pos + 1) n w)
    {entry : StreamPacket} (hentry : entry = streamEntry b data pos) :
    Builds mode b file data pos (n + 1) (w.push entry) where
  packets := by rw [StreamWindow.push, h.packets, hentry, List.range'_succ, List.map_cons]
  blockNum := by
    rw [StreamWindow.push, h.blockNum, show pos + 1 + n + 1 = pos + (n + 1) + 1 by omega]
  within := by have := h.within; omega
  more := by rw [show pos + (n + 1) = pos + 1 + n by omega]; exact h.more
  eof := by rw [show pos + (n + 1) = pos + 1 + n by omega]; exact h.eof

variable {pos cursor : Nat} {spillover : Bytes}

/-- The front of the pending bytes is the next block. -/
theorem Pending.entry (h : Pending mode b file data pos cursor spillover) {front rest : Bytes}
    (hfront : front.length = b)
    (hrest : front ++ rest = spillover ++ readContent mode b (file.drop cursor)) :
    streamPacketOf (wire (pos + 1)) front false = streamEntry b data pos ∧
      rest = data.drop ((pos + 1) * b) ∧ (pos + 1) * b ≤ data.length := by
  have hmul : (pos + 1) * b = pos * b + b := by ring
  rw [h.content] at hrest
  have hblock : block b data pos = front := by rw [block, ← hrest, List.take_left' hfront]
  have hlen := congrArg List.length hrest
  rw [List.length_append, List.length_drop, hfront] at hlen
  refine ⟨?_, ?_, ?_⟩
  · rw [streamPacketOf, streamEntry, segPacket, hblock, hfront, decide_eq_false (Nat.lt_irrefl b)]
  · rw [hmul, ← List.drop_drop, ← hrest, List.drop_left' hfront]
  · have := h.pos_le
    omega

/-- The end of a pending file whose last bytes are shorter than a block: they are the last
block. -/
theorem Pending.lastEntry (h : Pending mode b file data pos cursor spillover) {front : Bytes}
    (hfront : front.length < b)
    (hrest : front = spillover ++ readContent mode b (file.drop cursor)) :
    streamPacketOf (wire (pos + 1)) front true = streamEntry b data pos ∧
      data.length ≤ (pos + 1) * b := by
  have hmul : (pos + 1) * b = pos * b + b := by ring
  rw [h.content] at hrest
  have hblock : block b data pos = front := by rw [block, ← hrest, List.take_of_length_le hfront.le]
  have hlen := congrArg List.length hrest
  rw [List.length_drop] at hlen
  refine ⟨?_, by omega⟩
  rw [streamPacketOf, streamEntry, segPacket, hblock, decide_eq_true hfront]

theorem drainSpillover_builds (hb : 0 < b) (h : Pending mode b file data pos cursor spillover)
    (hshort : spillover.length < b) (hread : (file.drop cursor).take b = []) {room : Nat}
    (hroom : room ≠ 0) :
    (drainSpillover b cursor room spillover (wire (pos + 1))).eofReached = true ∧
    ∃ n, Builds mode b file data pos n
      (drainSpillover b cursor room spillover (wire (pos + 1))) := by
  have hwithin : pos < blockCount b data := (lt_blockCount_iff hb data pos).mpr h.pos_le
  have hcontent : readContent mode b (file.drop cursor) = [] := by
    have hnil : file.drop cursor = [] := by
      rcases List.take_eq_nil_iff.mp hread with hzero | hnil
      · omega
      · exact hnil
    rw [hnil, readContent_short (by exact hb), blockContent_nil]
  obtain ⟨room, rfl⟩ : ∃ k, room = k + 1 := ⟨room - 1, by omega⟩
  rw [drainSpillover]
  by_cases hnil : spillover = []
  · have hlen := congrArg List.length h.content
    rw [hcontent, hnil, List.length_append, List.length_nil, List.length_drop] at hlen
    rw [if_pos hnil]
    exact ⟨rfl, 0, rfl, rfl, hwithin.le, nofun, fun _ => by rw [Nat.add_zero]; omega⟩
  · obtain ⟨hentry, heof⟩ := h.lastEntry hshort (by rw [hcontent, List.append_nil])
    rw [if_neg hnil, if_neg (by omega)]
    simp only [hshort, decide_true, if_true]
    refine ⟨trivial, 1, ?_, ?_, hwithin, nofun, fun _ => heof⟩
    · rw [hentry]
      rfl
    · rw [wire_add_one]

theorem builds_push {w : StreamWindow} {entry : StreamPacket} {room : Nat}
    {p : Nat → Prop} (hentry : entry = streamEntry b data pos)
    (h : ∃ n, Builds mode b file data (pos + 1) n w ∧ p n) :
    ∃ n, Builds mode b file data pos n (w.push entry) ∧
      (room ≠ 0 → 0 < n ∨ (w.push entry).eofReached = true) := by
  obtain ⟨n, hn, -⟩ := h
  exact ⟨n + 1, hn.push hentry, fun _ => Or.inl (Nat.succ_pos n)⟩

/-- **A window of the streaming sender** has the next blocks of what is pending, at least one if
the file is not at its end. -/
theorem buildWindowStreaming_builds (hb : 0 < b) (room cursor : Nat) (spillover : Bytes)
    (blockNum : UInt16) : ∀ pos, blockNum = wire (pos + 1) →
      Pending mode b file data pos cursor spillover →
      ∃ n, Builds mode b file data pos n
          (buildWindowStreaming file mode b room cursor spillover blockNum) ∧
        (room ≠ 0 → 0 < n ∨
          (buildWindowStreaming file mode b room cursor spillover blockNum).eofReached = true) := by
  induction room, cursor, spillover, blockNum using buildWindowStreaming.induct file mode b with
  | case1 cursor spillover blockNum =>
      rintro pos rfl h
      rw [buildWindowStreaming, dif_pos rfl]
      exact ⟨0, ⟨rfl, rfl, ((lt_blockCount_iff hb data pos).mpr h.pos_le).le, fun _ => h, nofun⟩,
        fun h0 => absurd rfl h0⟩
  | case2 room cursor spillover blockNum hroom hfull ih =>
      -- a block is cut out of the buffer
      rintro pos rfl h
      rw [buildWindowStreaming, dif_neg hroom, if_pos hfull]
      obtain ⟨hentry, hrest, hle⟩ := h.entry (List.length_take_of_le hfull.2)
        (by rw [← List.append_assoc, List.take_append_drop])
      exact builds_push hentry (ih (pos + 1) (wire_add_one _)
        ⟨hrest, hle, fun hmode => absurd hfull.1 hmode⟩)
  | case3 room cursor spillover blockNum hroom hfull read hread =>
      -- the end of the file
      rintro pos rfl h
      have hshort : spillover.length < b := by
        by_cases hmode : mode = .netascii
        · exact Nat.lt_of_not_le fun hle => hfull ⟨hmode, hle⟩
        · rw [h.octet hmode]
          exact hb
      obtain ⟨heof, n, hn⟩ := drainSpillover_builds hb h hshort hread hroom
      rw [buildWindowStreaming, dif_neg hroom, if_neg hfull]
      simp only
      rw [dif_pos hread]
      exact ⟨n, hn, fun _ => Or.inr heof⟩
  | case4 room cursor spillover blockNum hroom hfull read hread hmode spilled hlen ih =>
      -- the read fills a block
      rintro pos rfl h
      have hnext := readContent_netascii hmode hb file cursor
      obtain ⟨hentry, hrest, hle⟩ := h.entry (List.length_take_of_le hlen)
        (by rw [hnext, ← List.append_assoc, List.take_append_drop, List.append_assoc])
      rw [buildWindowStreaming, dif_neg hroom, if_neg hfull]
      simp only
      rw [dif_neg hread, if_pos hmode, if_pos hlen]
      exact builds_push hentry (ih (pos + 1) (wire_add_one _)
        ⟨hrest, hle, fun hne => absurd hmode hne⟩)
  | case5 room cursor spillover blockNum hroom hfull read hread hmode spilled hlen ih =>
      -- it does not, and stays in the buffer
      rintro pos rfl h
      have hnext := readContent_netascii hmode hb file cursor
      rw [buildWindowStreaming, dif_neg hroom, if_neg hfull]
      simp only
      rw [dif_neg hread, if_pos hmode, if_neg hlen]
      refine ih pos rfl ⟨?_, h.pos_le, fun hne => absurd hmode hne⟩
      rw [← h.content, hnext, List.append_assoc]
  | case6 room cursor spillover blockNum hroom hfull read hread hmode isFinal hfinal =>
      -- the last block of a file in octet mode
      rintro pos rfl h
      have hshort : read.length < b := of_decide_eq_true hfinal
      have hall : file.drop cursor = read := by
        have hlen : ((file.drop cursor).take b).length < b := hshort
        rw [List.length_take] at hlen
        exact (List.take_of_length_le (by omega)).symm
      obtain ⟨hentry, heof⟩ := h.lastEntry hshort
        (by rw [h.octet hmode, readContent_octet hmode hb, hall, List.nil_append])
      rw [buildWindowStreaming, dif_neg hroom, if_neg hfull]
      simp only
      rw [dif_neg hread, if_neg hmode, if_pos hfinal]
      refine ⟨1, ⟨?_, ?_, (lt_blockCount_iff hb data pos).mpr h.pos_le, nofun, fun _ => heof⟩,
        fun _ => Or.inl Nat.one_pos⟩
      · rw [show decide (((file.drop cursor).take b).length < b) = true from hfinal, hentry]
        rfl
      · rw [wire_add_one]
  | case7 room cursor spillover blockNum hroom hfull read hread hmode isFinal hfinal ih =>
      rintro pos rfl h
      have hfull' : read.length = b := by
        have : ¬read.length < b := fun hlt => hfinal (decide_eq_true hlt)
        have : read.length ≤ b := List.length_take_le _ _
        omega
      have hnext := @readContent_drop mode b file hb cursor
      rw [blockContent, if_neg hmode] at hnext
      obtain ⟨hentry, hrest, hle⟩ := h.entry hfull' (by
        rw [h.octet hmode, List.nil_append, hnext])
      rw [buildWindowStreaming, dif_neg hroom, if_neg hfull]
      simp only
      rw [dif_neg hread, if_neg hmode, if_neg hfinal]
      refine builds_push ?_ (ih (pos + 1) (wire_add_one _) ⟨?_, hle, h.octet⟩)
      · rw [← hentry, show decide (((file.drop cursor).take b).length < b) = false from
          Bool.eq_false_iff.mpr hfinal]
      · rw [h.octet hmode, List.nil_append, hrest]

/-- The window of `n` blocks at `pos` is in flight. -/
structure StreamAt (mode : TransferMode) (b : Nat) (file data : Bytes) (pos n : Nat)
    (s : StreamState) : Prop where
  window : Builds mode b file data pos n s.window
  bytes : s.bytesTransferred = streamedBytes .octet b data pos
  pos_lt : 0 < n

/-- The packets up to `e` have been sent. -/
inductive StreamInFlight (mode : TransferMode) (b : Nat) (file data : Bytes) :
    Nat → Waiting StreamState → Prop where
  | window {pos n : Nat} {s : StreamState} (h : StreamAt mode b file data pos n s) :
      StreamInFlight mode b file data (pos + n) (.window s)
  | emptyBlock : StreamInFlight mode b file data (blockCount b data)
      (.emptyBlock (wire (blockCount b data)))

theorem streamNext_emptyBlock (hb : 0 < b) (hend : data.length = pos * b) :
    Next b data (StreamInFlight mode b file data) pos (sendEmptyBlock (wire (pos + 1))) := by
  refine next_emptyBlock hb hend ?_
  rw [← blockCount_of_whole hb hend]
  exact .emptyBlock

theorem nextWindowStreaming_next {W : Nat} (hb : 0 < b) (hW : 0 < W)
    (h : Pending mode b file data pos cursor spillover) :
    Next b data (StreamInFlight mode b file data) pos
      (nextWindowStreaming file mode b W cursor spillover (wire (pos + 1))
        (streamedBytes .octet b data pos)) := by
  obtain ⟨n, hn, hprogress⟩ := buildWindowStreaming_builds hb W cursor spillover _ pos rfl h
  simp only [nextWindowStreaming]
  generalize buildWindowStreaming file mode b W cursor spillover (wire (pos + 1)) = w
    at hn hprogress ⊢
  rcases Nat.eq_zero_or_pos n with rfl | hpos
  · -- nothing is left but the empty block
    have heof := hn.eof ((hprogress hW.ne').resolve_left (Nat.lt_irrefl 0))
    have hle := h.pos_le
    rw [Nat.add_zero] at heof
    rw [if_pos (by rw [hn.packets]; rfl), hn.blockNum, Nat.add_zero]
    exact streamNext_emptyBlock hb (by omega)
  · have hne : w.windowPackets ≠ [] := by
      rw [hn.packets]
      simp only [ne_eq, List.map_eq_nil_iff, List.range'_eq_nil_iff]
      omega
    rw [if_neg hne]
    refine ⟨pos + n, .window ⟨w, wire (pos + 1), streamedBytes .octet b data pos, 0⟩, by omega,
      .window ⟨hn, rfl, hpos⟩, ?_⟩
    rw [sendWindowStreaming, if_neg (by simp [maxRetries]), window_blocks hn.within, hn.packets,
      List.map_map]
    rfl

theorem StreamAt.last {n : Nat} {s : StreamState} (h : StreamAt mode b file data pos n s) :
    ∃ entry, s.window.windowPackets.getLast? = some entry ∧
      entry.blockNum = wire (pos + n) := by
  refine ⟨_, by rw [h.window.packets, getLast?_range'_map _ h.pos_lt], ?_⟩
  have := h.pos_lt
  rw [streamEntry, show pos + n - 1 + 1 = pos + n by omega]

theorem mainStreamingStep_window {W : Nat} (hb : 0 < b) (hW : 0 < W) {n : Nat} {s : StreamState}
    (h : StreamAt mode b file data pos n s) {r : Recv} (hr : IsAck (wire (pos + n)) r) :
    (pos + n = blockCount b data ∧
      ∃ exit, sendFileDataStreamingStep file mode b W (.awaiting (.window s)) r
        = (.done exit, [])) ∨
    Next b data (StreamInFlight mode b file data) (pos + n)
      (sendFileDataStreamingStep file mode b W (.awaiting (.window s)) r) := by
  obtain ⟨entry, hentry, hnum⟩ := h.last
  have hn := h.pos_lt
  have hle := h.window.within
  have hadvance := advanceStreaming_eq .octet hb data n pos (by omega) hn hle
  rw [show streamEntryIn .octet b data = streamEntry b data from rfl, ← h.window.packets,
    ← h.bytes] at hadvance
  simp only [sendFileDataStreamingStep, hentry, hnum,
    (waitForAckWithDuplicateHandling_eq_ok_true_iff _ _).mpr hr, hadvance]
  by_cases hlast : pos + n = blockCount b data
  · rw [if_pos hlast]
    exact Or.inl ⟨hlast, _, rfl⟩
  · rw [if_neg hlast]
    right
    have hbegin := (lt_blockCount_iff hb data (pos + n)).mp (by omega)
    simp only
    by_cases heof : s.window.eofReached = true
    · have hend := h.window.eof heof
      rw [if_pos heof, h.window.blockNum]
      exact streamNext_emptyBlock hb (by omega)
    · rw [if_neg heof, h.window.blockNum]
      exact nextWindowStreaming_next hb hW (h.window.more (Bool.eq_false_iff.mpr heof))

end

/-- **The streaming sender sends the segmentation of what it makes of its reads.** -/
theorem mainStreaming_sendsWhen (mode : TransferMode) (file : Bytes) {b W : Nat} (hb : 0 < b)
    (hW : 0 < W) :
    (sendFileDataStreaming file file.length mode b W).SendsWhen
      (AckSucceeds (Waiting.lastBlock StreamState.lastBlockInWindow))
      (segPackets b (readContent mode b file)) := by
  by_cases hfile : file = []
  · subst hfile
    rw [readContent_short (by exact hb), blockContent_nil, segPackets_nil]
    exact sendsWhen_empty _ rfl rfl fun _ _ => rfl
  · refine sendsWhen_of_next (StreamInFlight mode b file (readContent mode b file)) rfl ?_ ?_ ?_
    · rintro e w (h | -)
      · obtain ⟨entry, hentry, hnum⟩ := h.last
        refine ⟨h.window.within, ?_⟩
        rw [Waiting.lastBlock, StreamState.lastBlockInWindow, hentry, Option.map_some, hnum]
      · exact ⟨Nat.le_refl _, rfl⟩
    · have hpending : Pending mode b file (readContent mode b file) 0 0 [] :=
        ⟨by rw [Nat.zero_mul]; rfl, by omega, fun _ => rfl⟩
      have h := nextWindowStreaming_next hb hW hpending
      simp only [sendFileDataStreaming, List.length_eq_zero_iff, if_neg hfile]
      exact h
    · rintro e w r (h | -) hr
      · exact mainStreamingStep_window hb hW h hr
      · refine Or.inl ⟨rfl, .loopEnded, ?_⟩
        simp only [sendFileDataStreaming, sendFileDataStreamingStep, awaitEmptyBlock,
          (waitForAckWithDuplicateHandling_eq_ok_true_iff _ _).mpr hr]

/-- **In octet mode all senders send the same packets**: the two senders of this program those
that the server's buffered sender sends, wherever they put the empty block at the end. -/
theorem octet_senders_agree (file : Bytes) {b W : Nat} (hb : 8 ≤ b ∧ b ≤ 65464)
    (hW : 1 ≤ W ∧ W ≤ 65535) :
    (UsgTftp.sendFileDataBuffered file b W).SendsWhen
      (AckSucceeds UsgTftp.BufferedState.lastBlockInWindow) (segPackets b file) ∧
    (sendFileDataBuffered file b W).SendsWhen
      (AckSucceeds (Waiting.lastBlock BufferedState.lastBlockInWindow)) (segPackets b file) ∧
    (sendFileDataStreaming file file.length .octet b W).SendsWhen
      (AckSucceeds (Waiting.lastBlock StreamState.lastBlockInWindow)) (segPackets b file) := by
  have hb' : 0 < b := by omega
  have hstreaming := mainStreaming_sendsWhen .octet file hb' hW.1
  rw [readContent_octet (by decide) hb'] at hstreaming
  exact ⟨buffered_sendsWhen file hb' hW.1, mainBuffered_sendsWhen file hb' hW.1, hstreaming⟩

/-- Eight bytes in one block, and an empty block behind it. -/
theorem octet_senders_agree_eight :
    segPackets 8 (List.replicate 8 65) = [dataPacket 1 (List.replicate 8 65), dataPacket 2 []] ∧
    (sendFileDataStreaming (List.replicate 8 65) 8 .octet 8 1).SendsWhen
      (AckSucceeds (Waiting.lastBlock StreamState.lastBlockInWindow))
      (segPackets 8 (List.replicate 8 65)) :=
  ⟨by decide, (octet_senders_agree (List.replicate 8 65) (by decide) (by decide)).2.2⟩

end UsgTftp.Main
