import UsgTftp.Lib.Retransmit
import UsgTftp.Server.Read

set_option autoImplicit false

/-! # Which packets of a read are retransmitted

`handle_read_request` waits on three kinds of packets: the OACK, the windows of DATA and the
single DATA of an empty file. The loops of the senders repeat a window that is not
acknowledged. The other two are handed to `send_with_retry`, which repeats a send that fails
but not one that succeeds, and then to `wait_for_ack`, which repeats only the wait.

The exchanges are those of `Lib/Retransmit.lean`: the peer answers whatever reaches it, and
a lost packet or a lost answer is a timeout at the server. `read_completes_iff` says for
which lines the transfer completes, among all lines that let each of the awaited packets
through once in `maxRetries` transmissions.
-/

namespace UsgTftp

open Reactive Segment SeqNum

/-- The answer of the peer: the number of the last block that was sent, or `0` to an OACK. -/
def answerTo (sent : List Bytes) : Recv :=
  match sent.getLast?.bind header with
  | some (opcode, blockNum, _) =>
      .datagram (ackPacket (if opcode = Opcode.data.toU16 then blockNum else 0))
  | none => .datagram (ackPacket 0)

/-- The transfer completes on the line `through`. -/
def CompletesOn (through : Nat → Nat → Bool) (m : Machine ReadStatus Recv Bytes) : Prop :=
  Exchange.Reaches m answerTo .timeout through ReadStatus.Completed ⟨m.start.1, 0, 0, m.start.2⟩

theorem answerTo_data {sent : List Bytes} {n : UInt16} {payload : Bytes}
    (h : sent.getLast? = some (dataPacket n payload)) :
    answerTo sent = .datagram (ackPacket n) := by
  simp [answerTo, h]

theorem answerTo_oack (options : List OptionEntry) :
    answerTo [buildOackPacket options] = .datagram (ackPacket 0) := by
  simp only [answerTo, List.getLast?_singleton, Option.bind_some]
  cases hh : header (buildOackPacket options) with
  | none => rfl
  | some v =>
      obtain ⟨opcode, field, rest⟩ := v
      have hop : opcode = Opcode.oack.toU16 := header_opcode (getU16_buildOackPacket _) hh
      subst hop
      rfl

section

variable {opened : Option OpenFile} {mode : TransferMode} {options : TftpOptions}
  {negotiated : OptionMap} {maxFileSizeBytes : Nat} {order : IterOrder}

/-! ## Packets that are sent once -/

/-- The states in which a wait for a packet that was sent once has been in vain. -/
inductive SentOnce : ReadStatus → Prop where
  | oack (source : Source) (retry : Nat) : SentOnce (.oackWait source retry)
  | buffered (fileData : Bytes) (retry : Nat) : SentOnce (.buffered fileData (.awaitingEmpty retry))
  | streaming (file : Bytes) (retry : Nat) : SentOnce (.streaming file (.awaitingEmpty retry))
  | bufferedFailed (fileData : Bytes) (e : TftpError) :
      SentOnce (.buffered fileData (.done (.failed e)))
  | streamingFailed (file : Bytes) (e : TftpError) :
      SentOnce (.streaming file (.done (.failed e)))
  | ended (result : Except TftpError Unit) : SentOnce (.ended result)

theorem SentOnce.not_completed {s : ReadStatus} (h : SentOnce s) : ¬s.Completed := by
  intro hc
  cases h <;> cases hc

theorem awaitEmpty_timeout {σ : Type} (retry : Nat) :
    (∃ k, (awaitEmpty retry .timeout : SendStatus σ) = .awaitingEmpty k) ∨
      ∃ e, (awaitEmpty retry .timeout : SendStatus σ) = .done (.failed e) := by
  simp only [awaitEmpty, waitForAck, waitForAckTurn]
  by_cases h : retry + 1 < maxRetries
  · rw [if_pos h]
    exact Or.inl ⟨_, rfl⟩
  · rw [if_neg h]
    exact Or.inr ⟨_, rfl⟩

/-- A timeout of such a wait sends nothing. -/
theorem SentOnce.timeout {s : ReadStatus} (h : SentOnce s) :
    SentOnce (readRequestStep mode options s .timeout).1 ∧
      (readRequestStep mode options s .timeout).2 = [] := by
  cases h with
  | oack source retry =>
      simp only [readRequestStep, waitForAck, waitForAckTurn]
      by_cases hlt : retry + 1 < maxRetries
      · rw [if_pos hlt]
        exact ⟨.oack _ _, rfl⟩
      · rw [if_neg hlt]
        exact ⟨.ended _, rfl⟩
  -- the empty file: `wait_for_ack` is called again, nothing is sent
  | buffered fileData retry =>
      refine ⟨?_, rfl⟩
      show SentOnce (.buffered fileData (awaitEmpty retry .timeout))
      rcases awaitEmpty_timeout retry with ⟨k, hk⟩ | ⟨e, he⟩
      · rw [hk]; exact .buffered _ _
      · rw [he]; exact .bufferedFailed _ _
  | streaming file retry =>
      refine ⟨?_, rfl⟩
      show SentOnce (.streaming file (awaitEmpty retry .timeout))
      rcases awaitEmpty_timeout retry with ⟨k, hk⟩ | ⟨e, he⟩
      · rw [hk]; exact .streaming _ _
      · rw [he]; exact .streamingFailed _ _
  | bufferedFailed fileData e => exact ⟨.bufferedFailed _ _, rfl⟩
  | streamingFailed file e => exact ⟨.streamingFailed _ _, rfl⟩
  | ended result => exact ⟨.ended _, rfl⟩

/-- **A packet that is sent once and lost ends the transfer.** After the first wait nothing
is in flight, so that no later wait is answered either. -/
theorem SentOnce.not_reaches {through : Nat → Nat → Bool} {s : ReadStatus} (h : SentOnce s)
    {item : Nat} {sent : List Bytes} (hlost : through item 0 = false) :
    ¬Exchange.Reaches (handleReadRequest opened mode options negotiated maxFileSizeBytes order)
      answerTo .timeout through ReadStatus.Completed ⟨s, item, 0, sent⟩ := by
  refine Exchange.not_reaches_of_invariant (fun y => SentOnce y.status ∧
    (y.inFlight = [] ∨ through y.item y.attempt = false)) ?_ (fun y hy => hy.1.not_completed)
    ⟨h, Or.inr hlost⟩
  rintro y ⟨hy, hquiet⟩
  by_cases hrun : y.status.running = true
  · rw [Exchange.next_silent hrun hquiet]
    exact ⟨hy.timeout.1, Or.inl hy.timeout.2⟩
  · rw [Exchange.next_stopped (Bool.not_eq_true _ |>.mp hrun)]
    exact ⟨hy, hquiet⟩

/-- The transfer goes on after such a packet exactly if its only transmission is answered. -/
theorem SentOnce.reaches_iff {through : Nat → Nat → Bool} {s : ReadStatus} (h : SentOnce s)
    (hrun : s.running = true) {item : Nat} {sent : List Bytes} (hsent : sent ≠ []) :
    Exchange.Reaches (handleReadRequest opened mode options negotiated maxFileSizeBytes order)
        answerTo .timeout through ReadStatus.Completed ⟨s, item, 0, sent⟩
      ↔ through item 0 = true ∧
        Exchange.Reaches (handleReadRequest opened mode options negotiated maxFileSizeBytes order)
          answerTo .timeout through ReadStatus.Completed
          ⟨(readRequestStep mode options s (answerTo sent)).1, item + 1, 0,
            (readRequestStep mode options s (answerTo sent)).2⟩ := by
  by_cases hthrough : through item 0 = true
  · rw [Exchange.reaches_next h.not_completed, Exchange.next_answered hrun hsent hthrough]
    exact ⟨fun hr => ⟨hthrough, hr⟩, fun hr => hr.2⟩
  · constructor
    · intro hr
      exact absurd hr (h.not_reaches (by simpa using hthrough))
    · intro hr
      exact absurd hr.1 hthrough

/-! ## Windows of the buffered sender -/

/-- The buffered sender has the window at some block in flight; the rank is the number of
blocks from there on. -/
def waitsBuffered (options : TftpOptions) (fileData : Bytes) (rank retries : Nat)
    (s : ReadStatus) (sent : List Bytes) : Prop :=
  ∃ pos, pos < blockCount options.blockSize fileData ∧
    rank = blockCount options.blockSize fileData - pos ∧
    s = .buffered fileData
      (.awaiting (bufferedState options.blockSize fileData options.windowsize pos retries)) ∧
    sent = WindowSender.window (segPackets options.blockSize fileData) options.windowsize pos

theorem isAck_answerTo_window {b W pos : Nat} {file : Bytes} (hW : 0 < W)
    (hpos : pos < blockCount b file) :
    WindowSender.acked acksPacket (segPackets b file) W pos
      (answerTo (WindowSender.window (segPackets b file) W pos)) = true := by
  have hlen := windowLen_pos hW hpos
  have hlast : (WindowSender.window (segPackets b file) W pos).getLast?
      = some (dataPacket (wire (pos + windowLen b file W pos))
          (block b file (pos + windowLen b file W pos - 1))) := by
    rw [window_segPackets, getLast?_range'_map _ hlen, segPacket,
      show pos + windowLen b file W pos - 1 + 1 = pos + windowLen b file W pos by omega]
  rw [acked_segPackets hW hpos, answerTo_data hlast, isAck_ackPacket]

theorem repeats_buffered (hb : 0 < options.blockSize) (hW : 0 < options.windowsize)
    (fileData : Bytes) :
    Repeats (handleReadRequest opened mode options negotiated maxFileSizeBytes order)
      answerTo .timeout maxRetries (waitsBuffered options fileData) ReadStatus.Completed where
  running := by rintro _ _ _ _ ⟨pos, -, -, rfl, -⟩; rfl
  sends := by
    rintro _ _ _ _ ⟨pos, hpos, -, -, rfl⟩
    exact WindowSender.window_ne_nil hW (by rwa [length_segPackets])
  silent := by
    rintro rank retries _ _ ⟨pos, hpos, hrank, rfl, rfl⟩ hlt
    refine ⟨pos, hpos, hrank, ?_⟩
    have hnot : ¬WindowSender.acked acksPacket (segPackets options.blockSize fileData)
        options.windowsize pos .timeout = true := by
      rw [acked_segPackets hW hpos]
      exact not_isAck_timeout _
    have hstep := @sendFileDataBufferedStep_eq _ _ hb hW fileData pos retries hpos .timeout
    rw [WindowSender.step, if_neg hnot, if_pos hlt] at hstep
    simp only [handleReadRequest, readRequestStep, hstep, bufferedStatus, true_and]
  answered := by
    rintro rank retries _ _ ⟨pos, hpos, hrank, rfl, rfl⟩
    have hstep := @sendFileDataBufferedStep_eq _ _ hb hW fileData pos retries hpos
      (answerTo (WindowSender.window (segPackets options.blockSize fileData)
        options.windowsize pos))
    rw [WindowSender.step, if_pos (isAck_answerTo_window hW hpos), length_segPackets] at hstep
    -- the rank is the number of blocks that are left
    by_cases hmore : pos + options.windowsize < blockCount options.blockSize fileData
    · rw [if_pos hmore] at hstep
      refine Or.inr ⟨_, ?_, pos + options.windowsize, hmore, rfl, ?_⟩
      · omega
      · simp only [handleReadRequest, readRequestStep, hstep, bufferedStatus, true_and]
    · rw [if_neg hmore] at hstep
      left
      simp only [handleReadRequest, readRequestStep, hstep, bufferedStatus]
      exact .buffered _ _ _

/-! ## Windows of the streaming sender, in any mode -/

/-- What the loop that builds a window of `room` packets leaves behind, whatever the blocks
hold: a window that does not reach the end of the file has read `room` whole blocks. -/
structure StreamWindow (file : Bytes) (b room cursor : Nat)
    (w : List StreamPacket × Nat × UInt16 × Bool) : Prop where
  nonempty : 0 < room → w.1 ≠ []
  data : ∀ e ∈ w.1, ∃ payload, e.packet = dataPacket e.blockNum payload
  cursor_le : w.2.1 ≤ file.length
  final : w.2.2.2 = true → ∃ e ∈ w.1, e.isFinal = true
  moved : w.2.2.2 = false → cursor + room * b ≤ w.2.1

theorem streamWindow_build (mode : TransferMode) (b : Nat) (file : Bytes) :
    ∀ (room cursor : Nat) (blockNum : UInt16), cursor ≤ file.length →
      StreamWindow file b room cursor
        (buildWindowStreaming file mode b room cursor blockNum) := by
  intro room
  induction room with
  | zero =>
      intro cursor blockNum hcursor
      refine ⟨fun h => absurd h (lt_irrefl 0), ?_, hcursor, ?_, ?_⟩
      · simp [buildWindowStreaming]
      · simp [buildWindowStreaming]
      · simp [buildWindowStreaming]
  | succ room ih =>
      intro cursor blockNum hcursor
      rw [buildWindowStreaming]
      -- a short read is the final block; it ends the window early
      by_cases hfinal : ((file.drop cursor).take b).length < b
      · simp only [hfinal, decide_true, if_true]
        refine ⟨fun _ => List.cons_ne_nil _ _, ?_, ?_, ?_, ?_⟩
        · simp
        · simp; omega
        · simp
        · simp
      · have hle := List.length_take_le b (file.drop cursor)
        have hlen : ((file.drop cursor).take b).length = b := by omega
        have hroom : cursor + b ≤ file.length := by
          have hdrop : ((file.drop cursor).take b).length ≤ (file.drop cursor).length :=
            List.length_take_le' _ _
          rw [hlen, List.length_drop] at hdrop
          omega
        have hrest := ih (cursor + b) (blockNum + 1) hroom
        simp only [hlen, lt_self_iff_false, decide_false, Bool.false_eq_true, if_false]
        refine ⟨fun _ => List.cons_ne_nil _ _, ?_, hrest.cursor_le, ?_, ?_⟩
        · intro e he
          rcases List.mem_cons.mp he with rfl | he
          · exact ⟨_, rfl⟩
          · exact hrest.data e he
        · intro heof
          obtain ⟨e, he, hfin⟩ := hrest.final heof
          exact ⟨e, List.mem_cons_of_mem _ he, hfin⟩
        · intro heof
          calc cursor + (room + 1) * b
              = cursor + b + room * b := by ring
            _ ≤ _ := hrest.moved heof

/-- The loop over an acknowledged window completes at a final block. -/
theorem advanceStreaming_final :
    ∀ (entries : List StreamPacket) (bytes : Nat), (∃ e ∈ entries, e.isFinal = true) →
      ∃ total block, advanceStreaming entries bytes = .inl (.completed total block) := by
  intro entries
  induction entries with
  | nil => rintro bytes ⟨e, he, -⟩; cases he
  | cons entry entries ih =>
      rintro bytes ⟨e, he, hfin⟩
      rw [advanceStreaming]
      by_cases hentry : entry.isFinal = true
      · rw [if_pos hentry]
        exact ⟨_, _, rfl⟩
      · rw [if_neg hentry]
        rcases List.mem_cons.mp he with rfl | he
        · exact absurd hfin hentry
        · exact ih _ ⟨e, he, hfin⟩

theorem advanceStreaming_not_final :
    ∀ (entries : List StreamPacket) (bytes : Nat), (¬∃ e ∈ entries, e.isFinal = true) →
      ∃ total, advanceStreaming entries bytes = .inr total := by
  intro entries
  induction entries with
  | nil => intro bytes _; exact ⟨_, rfl⟩
  | cons entry entries ih =>
      intro bytes hnone
      have hentry : ¬entry.isFinal = true := fun h => hnone ⟨entry, List.mem_cons_self, h⟩
      rw [advanceStreaming, if_neg hentry]
      refine ih _ ?_
      rintro ⟨e, he, hfin⟩
      exact hnone ⟨e, List.mem_cons_of_mem _ he, hfin⟩

/-- The streaming sender has a window in flight; the rank counts the bytes it has not read. -/
structure WaitsStreaming (file : Bytes) (rank retries : Nat) (s : StreamState) : Prop where
  nonempty : s.windowPackets ≠ []
  data : ∀ e ∈ s.windowPackets, ∃ payload, e.packet = dataPacket e.blockNum payload
  cursor_le : s.cursor ≤ file.length
  final : s.eofReached = true → ∃ e ∈ s.windowPackets, e.isFinal = true
  retries : s.retries = retries
  rank : rank = if s.eofReached then 0 else file.length - s.cursor + 1

theorem WaitsStreaming.eof_eq_false {file : Bytes} {rank retries : Nat} {s : StreamState}
    (h : WaitsStreaming file rank retries s)
    (hfinal : ¬∃ e ∈ s.windowPackets, e.isFinal = true) : s.eofReached = false := by
  cases heof : s.eofReached with
  | false => rfl
  | true => exact absurd (h.final heof) hfinal

def waitsStreaming (file : Bytes) (rank retries : Nat) (s : ReadStatus) (sent : List Bytes) :
    Prop :=
  ∃ st, WaitsStreaming file rank retries st ∧ s = .streaming file (.awaiting st) ∧
    sent = st.windowPackets.map (·.packet)

/-- The head of the outer loop sends a window, and has read more of the file. -/
theorem nextWindowStreaming_waits (mode : TransferMode) {b W : Nat} (hb : 0 < b) (hW : 0 < W)
    {file : Bytes} {cursor : Nat} (hcursor : cursor ≤ file.length) (blockNum : UInt16)
    (bytes : Nat) :
    ∃ st rank, rank < file.length - cursor + 1 ∧ WaitsStreaming file rank 0 st ∧
      nextWindowStreaming file mode b W cursor blockNum bytes false
        = (.awaiting st, st.windowPackets.map (·.packet)) := by
  have hw := streamWindow_build mode b file W cursor blockNum hcursor
  rcases hbuild : buildWindowStreaming file mode b W cursor blockNum
    with ⟨entries, cursor', blockNum', eof⟩
  rw [hbuild] at hw
  have hne : entries ≠ [] := hw.nonempty hW
  refine ⟨⟨cursor', blockNum', blockNum, bytes, eof, entries, 0⟩, _, ?_,
    ⟨hne, hw.data, hw.cursor_le, hw.final, rfl, rfl⟩, ?_⟩
  · have hcur : cursor' ≤ file.length := hw.cursor_le
    cases eof with
    | true => simp
    | false =>
        have hmoved : cursor + W * b ≤ cursor' := hw.moved rfl
        have hpos : 0 < W * b := Nat.mul_pos hW hb
        simp only [Bool.false_eq_true, if_false]
        omega
  · simp only [nextWindowStreaming, Bool.false_eq_true, if_false, hbuild]
    rw [if_neg hne, sendWindowStreaming, if_neg (show ¬(0 ≥ maxRetries) by decide)]

theorem repeats_streaming (hb : 0 < options.blockSize) (hW : 0 < options.windowsize)
    (file : Bytes) :
    Repeats (handleReadRequest opened mode options negotiated maxFileSizeBytes order)
      answerTo .timeout maxRetries (waitsStreaming file) ReadStatus.Completed where
  running := by rintro _ _ _ _ ⟨st, -, rfl, -⟩; rfl
  sends := by
    rintro _ _ _ _ ⟨st, hst, -, rfl⟩
    simpa using hst.nonempty
  silent := by
    rintro rank retries _ _ ⟨st, hst, rfl, rfl⟩ hlt
    refine ⟨{ st with retries := st.retries + 1 }, ⟨hst.nonempty, hst.data, hst.cursor_le,
      hst.final, by rw [hst.retries], hst.rank⟩, ?_⟩
    have hlast := List.getLast?_eq_some_getLast hst.nonempty
    have hsend : ¬(st.retries + 1 ≥ maxRetries) := by rw [hst.retries]; omega
    simp only [handleReadRequest, readRequestStep, sendFileDataStreamingStep, hlast,
      waitForAckWithDuplicateHandling, sendWindowStreaming, if_neg hsend, true_and]
  answered := by
    rintro rank retries _ _ ⟨st, hst, rfl, rfl⟩
    have hlast := List.getLast?_eq_some_getLast hst.nonempty
    obtain ⟨payload, hpacket⟩ := hst.data _ (List.getLast_mem hst.nonempty)
    have hsent : (st.windowPackets.map (·.packet)).getLast?
        = some (dataPacket (st.windowPackets.getLast hst.nonempty).blockNum payload) := by
      rw [List.getLast?_map, hlast, Option.map_some, hpacket]
    have hok := (waitForAckWithDuplicateHandling_eq_ok_true_iff
      (st.windowPackets.getLast hst.nonempty).blockNum _).mpr (isAck_ackPacket.mpr rfl)
    rw [answerTo_data hsent]
    simp only [handleReadRequest, readRequestStep, sendFileDataStreamingStep, hlast, hok]
    -- the ACK completes the read, or the next window reads further into the file
    by_cases hfinal : ∃ e ∈ st.windowPackets, e.isFinal = true
    · obtain ⟨total, block, hadv⟩ :=
        advanceStreaming_final st.windowPackets st.bytesTransferred hfinal
      rw [hadv]
      exact Or.inl (.streaming _ _ _)
    · obtain ⟨total, hadv⟩ :=
        advanceStreaming_not_final st.windowPackets st.bytesTransferred hfinal
      have heof := hst.eof_eq_false hfinal
      obtain ⟨st', rank', hlt, hst', hnext⟩ := nextWindowStreaming_waits mode hb hW
        hst.cursor_le st.blockNum total
      have hrank : rank = file.length - st.cursor + 1 := by rw [hst.rank, heof]; rfl
      refine Or.inr ⟨rank', by omega, st', hst', ?_⟩
      simp only [hadv, heof, Bool.false_eq_true, if_false, hnext, true_and]

/-! ## The whole read -/

/-- The bytes that will be cut into blocks. A directory of length zero is sent as an empty
file, without being read. -/
inductive Source.Holds : Source → Bytes → Prop where
  | buffered (fileData : Bytes) : Holds (.buffered fileData) fileData
  | streaming (content : Bytes) : Holds (.streaming (.regular content)) content
  | emptyDirectory : Holds (.streaming (.directory 0)) []

/-- From the call of a sender on: the single packet of an empty file must come through at
once, the windows of any other file need a positive window size. -/
theorem startSending_reaches_iff {through : Nat → Nat → Bool} (hb : 0 < options.blockSize)
    (hthrough : ∀ i, ∃ k, k < maxRetries ∧ through i k = true) {source : Source} {data : Bytes}
    (hsource : source.Holds data) (item : Nat) :
    Exchange.Reaches (handleReadRequest opened mode options negotiated maxFileSizeBytes order)
        answerTo .timeout through ReadStatus.Completed
        ⟨(startSending mode options source).1, item, 0, (startSending mode options source).2⟩
      ↔ (data = [] → through item 0 = true) ∧ (data ≠ [] → 0 < options.windowsize) := by
  by_cases hdata : data = []
  · subst hdata
    have hanswer : answerTo [emptyFilePacket] = .datagram (ackPacket 1) := answerTo_data rfl
    have hstreamed : readRequestStep mode options (.streaming [] (.awaitingEmpty 0))
        (.datagram (ackPacket 1)) = (.streaming [] (.done (.completed 0 1)), []) := by
      simp only [readRequestStep, sendFileDataStreamingStep, awaitEmpty, waitForAck_ack]
    simp only [forall_const, ne_eq, not_true_eq_false, false_implies, and_true]
    cases hsource with
    | buffered =>
        have hstart : startSending mode options (.buffered [])
            = (.buffered [] (.awaitingEmpty 0), [emptyFilePacket]) := rfl
        have hdone : readRequestStep mode options (.buffered [] (.awaitingEmpty 0))
            (.datagram (ackPacket 1)) = (.buffered [] (.done (.completed 0 1)), []) := by
          simp only [readRequestStep, sendFileDataBufferedStep, awaitEmpty, waitForAck_ack]
        rw [hstart, (SentOnce.buffered [] 0).reaches_iff rfl (List.cons_ne_nil _ _), hanswer,
          hdone, and_iff_left]
        exact ⟨0, .buffered _ _ _⟩
    | streaming =>
        have hstart : startSending mode options (.streaming (.regular []))
            = (.streaming [] (.awaitingEmpty 0), [emptyFilePacket]) := rfl
        rw [hstart, (SentOnce.streaming [] 0).reaches_iff rfl (List.cons_ne_nil _ _), hanswer,
          hstreamed, and_iff_left]
        exact ⟨0, .streaming _ _ _⟩
    | emptyDirectory =>
        have hstart : startSending mode options (.streaming (.directory 0))
            = (.streaming [] (.awaitingEmpty 0), [emptyFilePacket]) := rfl
        rw [hstart, (SentOnce.streaming [] 0).reaches_iff rfl (List.cons_ne_nil _ _), hanswer,
          hstreamed, and_iff_left]
        exact ⟨0, .streaming _ _ _⟩
  · have hgoal : ((data = [] → through item 0 = true) ∧ (data ≠ [] → 0 < options.windowsize))
        ↔ 0 < options.windowsize :=
      ⟨fun h => h.2 hdata, fun h => ⟨fun hnil => absurd hnil hdata, fun _ => h⟩⟩
    rw [hgoal]
    rcases Nat.eq_zero_or_pos options.windowsize with hzero | hW
    · refine iff_of_false ?_ (by omega)
      -- the first window is empty: the buffered sender panics, the streaming one returns
      cases hsource with
      | buffered =>
          have hstart : startSending mode options (.buffered data)
              = (.buffered data (.done .panicked), []) := by
            simp [startSending, sendFileDataBuffered, hdata, nextWindowBuffered, hzero,
              buildWindowBuffered]
          rw [hstart]
          exact Exchange.not_reaches_of_stopped rfl (by intro h; cases h)
      | streaming =>
          have hstart : startSending mode options (.streaming (.regular data))
              = (.streaming data (.done .loopEnded), []) := by
            simp [startSending, sendFileDataStreaming, hdata, nextWindowStreaming, hzero,
              buildWindowStreaming]
          rw [hstart]
          exact Exchange.not_reaches_of_stopped rfl (by intro h; cases h)
      | emptyDirectory => exact absurd rfl hdata
    · refine iff_of_true ?_ hW
      cases hsource with
      | buffered =>
          have hpos := blockCount_pos options.blockSize data
          have hnext := nextWindowBuffered_eq hb hW hpos
          rw [Nat.zero_mul] at hnext
          refine (repeats_buffered hb hW data).completes hthrough _ item _ _
            ⟨0, hpos, rfl, ?_⟩
          simp only [startSending, sendFileDataBuffered, if_neg hdata]
          rw [show (1 : UInt16) = wire (0 + 1) from rfl, hnext]
          exact ⟨rfl, rfl⟩
      | streaming =>
          obtain ⟨st, rank, -, hst, hnext⟩ := nextWindowStreaming_waits mode hb hW
            (Nat.zero_le data.length) 1 0
          refine (repeats_streaming hb hW data).completes hthrough rank item _ _ ⟨st, hst, ?_⟩
          simp only [startSending, sendFileDataStreaming, List.length_eq_zero_iff, if_neg hdata,
            hnext, true_and]
      | emptyDirectory => exact absurd rfl hdata

theorem convertToNetascii_eq_nil {data : Bytes} : convertToNetascii data = [] ↔ data = [] := by
  cases data with
  | nil => simp [convertToNetascii]
  | cons byte data =>
      simp only [convertToNetascii, List.flatMap_cons, reduceCtorEq, iff_false]
      split_ifs <;> simp

/-- A file within the limit is sent: with the OACK first, if there is one. -/
theorem startReadRequest_regular {content : Bytes}
    (hsize : maxFileSizeBytes = 0 ∨ content.length ≤ maxFileSizeBytes) :
    ∃ source data tsize, source.Holds data ∧ (data = [] ↔ content = []) ∧
      startReadRequest (some (.regular content)) mode options negotiated maxFileSizeBytes order
        = sendOack mode options negotiated order source tsize := by
  have hnot : ¬(maxFileSizeBytes > 0 ∧ (OpenFile.regular content).len > maxFileSizeBytes) := by
    rintro ⟨hpos, hlen⟩
    simp only [OpenFile.len] at hlen
    omega
  rw [startReadRequest, if_neg hnot]
  by_cases hsmall : mode = .netascii ∧ (OpenFile.regular content).len ≤ netasciiBufferLimit
  · rw [if_pos hsmall]
    exact ⟨_, _, _, .buffered _, convertToNetascii_eq_nil, rfl⟩
  · rw [if_neg hsmall]
    exact ⟨_, _, _, .streaming _, Iff.rfl, rfl⟩

/-- Filling in `tsize` adds no option. -/
theorem entries_fill_tsize_eq_nil (m : OptionMap) (value : String) :
    (if "tsize" ∈ m then m.insert "tsize" value else m).entries = [] ↔ m.entries = [] := by
  by_cases h : "tsize" ∈ m
  · rw [if_pos h]
    refine iff_of_false ?_ ?_
    · simp [AList.entries_insert]
    · intro hnil
      rw [AList.mem_keys, AList.keys, hnil] at h
      cases h
  · rw [if_neg h]

/-- **When a read survives its losses.** On every line that lets each awaited packet and its
answer through in one of the first `maxRetries` transmissions, the read of a file completes
iff the packets that are sent only once, the OACK and the DATA of an empty file, come
through at their first transmission, and a file with data is sent in windows that are not
empty. -/
theorem read_completes_iff (content : Bytes) (mode : TransferMode) (options : TftpOptions)
    (negotiated : OptionMap) (maxFileSizeBytes : Nat) (order : IterOrder)
    (through : Nat → Nat → Bool) (hb : 8 ≤ options.blockSize ∧ options.blockSize ≤ 65464)
    (hsize : maxFileSizeBytes = 0 ∨ content.length ≤ maxFileSizeBytes)
    (hthrough : ∀ i, ∃ k, k < maxRetries ∧ through i k = true) :
    CompletesOn through (handleReadRequest (some (.regular content)) mode options negotiated
        maxFileSizeBytes order)
      ↔ (negotiated.entries ≠ [] → through 0 0 = true) ∧
        (content = [] → through (if negotiated.entries = [] then 0 else 1) 0 = true) ∧
        (content ≠ [] → 0 < options.windowsize) := by
  have hb' : 0 < options.blockSize := by omega
  obtain ⟨source, data, tsize, hsource, hdata, hstart⟩ :=
    @startReadRequest_regular mode options negotiated _ order content hsize
  have hstart' : (handleReadRequest (some (.regular content)) mode options negotiated
      maxFileSizeBytes order).start = sendOack mode options negotiated order source tsize := hstart
  rw [CompletesOn, hstart', sendOack]
  -- with an OACK the data are the second group that is sent, without one the first
  by_cases hnone : negotiated.entries = []
  · rw [if_pos ((entries_fill_tsize_eq_nil _ _).mpr hnone), if_pos hnone,
      startSending_reaches_iff hb' hthrough hsource, hdata, ne_eq, hdata]
    simp [hnone]
  · rw [if_neg (fun h => hnone ((entries_fill_tsize_eq_nil _ _).mp h)), if_neg hnone,
      (SentOnce.oack source 0).reaches_iff rfl (List.cons_ne_nil _ _), answerTo_oack]
    have hstep : readRequestStep mode options (.oackWait source 0) (.datagram (ackPacket 0))
        = startSending mode options source := by
      simp only [readRequestStep, waitForAck_ack]
    rw [hstep, startSending_reaches_iff hb' hthrough hsource, hdata, ne_eq, hdata]
    simp [hnone]

/-- A line on which the OACK comes through at once and everything else the second time. -/
def windowsLostOnce (item attempt : Nat) : Bool := attempt == if item = 0 then 0 else 1

/-- A line on which every packet comes through the second time. -/
def lostOnce (_ attempt : Nat) : Bool := attempt == 1

theorem read_completes_iff_windowsLostOnce :
    (∀ i, ∃ k, k < maxRetries ∧ windowsLostOnce i k = true) ∧
    CompletesOn windowsLostOnce (handleReadRequest (some (.regular [65])) .octet {}
      (AList.singleton "blksize" "512") 0 .entries) := by
  have hthrough : ∀ i, ∃ k, k < maxRetries ∧ windowsLostOnce i k = true := by
    intro i
    refine ⟨if i = 0 then 0 else 1, ?_, ?_⟩
    · split_ifs <;> decide
    · simp [windowsLostOnce]
  refine ⟨hthrough, (read_completes_iff [65] .octet {} (AList.singleton "blksize" "512") 0
    .entries windowsLostOnce (by decide) (Or.inl rfl) hthrough).mpr ⟨fun _ => rfl, ?_, ?_⟩⟩
  · intro h
    cases h
  · intro _
    decide

/-- The OACK is lost once and the next transmission would come through: there is none. The
same holds of the empty file, without any option. -/
theorem lost_once_ends_read :
    (∀ i, ∃ k, k < maxRetries ∧ lostOnce i k = true) ∧
    ¬CompletesOn lostOnce (handleReadRequest (some (.regular [65])) .octet {}
      (AList.singleton "blksize" "512") 0 .entries) ∧
    ¬CompletesOn lostOnce (handleReadRequest (some (.regular [])) .octet {} ∅ 0 .entries) :=
  ⟨fun _ => ⟨1, by decide, rfl⟩, (SentOnce.oack _ 0).not_reaches rfl,
    (SentOnce.streaming [] 0).not_reaches rfl⟩

end

end UsgTftp
