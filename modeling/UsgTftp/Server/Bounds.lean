import UsgTftp.Lib.Credit
import UsgTftp.Server.Retransmission

set_option autoImplicit false

/-! # How much a read request can cost

A read request may come from an address that never asked for it, and a client may answer as it
likes. `read_transfer_bounded`: whatever arrives, a transfer sends at most `maxRetries` windows,
and as many more for each ACK that arrives; before the first ACK it sends a single OACK if an
option was accepted; and it ends after a number of waits that the length of the data bounds.

Both senders wait in the same way, so their steps are bounded by one notion (`SenderView`).
-/

namespace UsgTftp

open Reactive Reactive.Machine

/-! ## Senders that wait for a window -/

/-- What the bounds read off a sender that waits for a window: how often it has failed, how many
packets it has, and how many windows can follow at most. -/
structure SenderView (σ : Type) where
  retries : σ → Nat
  width : σ → Nat
  left : σ → Nat

section Views

variable {σ : Type} (v : SenderView σ) (W : Nat)

/-- The number of retries and the width of windows are within their limits. -/
def SenderView.Bounded : SendStatus σ → Prop
  | .awaitingEmpty retry => retry < maxRetries
  | .awaiting s => v.retries s < maxRetries ∧ v.width s ≤ W
  | .done _ => True

/-- How many packets may still be sent before the next ACK. -/
def SenderView.credit : SendStatus σ → Nat
  | .awaiting s => (maxRetries - 1 - v.retries s) * W
  | _ => 0

/-- How many waits there may still be. -/
def SenderView.rank : SendStatus σ → Nat
  | .awaitingEmpty retry => maxRetries - retry
  | .awaiting s => maxRetries - v.retries s + maxRetries * v.left s
  | .done _ => 0

/-- A step that no ACK allowed: it is paid from the credit. -/
structure SenderView.Repeats (s : SendStatus σ) (next : SendStatus σ × List Bytes) : Prop where
  bounded : v.Bounded W next.1
  paid : next.2.length + v.credit W next.1 ≤ v.credit W s
  rank : v.rank next.1 < v.rank s ∨ next.1.running = false

/-- The sender goes on to a window after which at most `n` others come. -/
structure SenderView.Enters (n : Nat) (next : SendStatus σ × List Bytes) : Prop where
  bounded : v.Bounded W next.1
  paid : next.2.length + v.credit W next.1 ≤ maxRetries * max 1 W
  rank : v.rank next.1 ≤ maxRetries * (n + 1)

end Views

section Steps

variable {σ : Type} {v : SenderView σ} {W : Nat}

theorem SenderView.Repeats.stops (s : SendStatus σ) (e : SendExit) :
    v.Repeats W s (.done e, []) :=
  ⟨trivial, Nat.zero_le _, Or.inr rfl⟩

theorem SenderView.Enters.stops (n : Nat) (e : SendExit) : v.Enters W n (.done e, []) :=
  ⟨trivial, Nat.zero_le _, Nat.zero_le _⟩

theorem SenderView.repeats_awaitEmpty (retry : Nat) (r : Recv) :
    v.Repeats W (.awaitingEmpty retry) (awaitEmpty retry r, []) := by
  rcases awaitEmpty_cases (σ := σ) retry r with ⟨e, he⟩ | ⟨hlt, he⟩
  · rw [he]
    exact .stops _ e
  · rw [he]
    refine ⟨hlt, Nat.le_refl _, Or.inl ?_⟩
    show maxRetries - (retry + 1) < maxRetries - retry
    omega

/-- The single packet of an empty file. -/
theorem SenderView.enters_empty (n : Nat) : v.Enters W n (.awaitingEmpty 0, [emptyFilePacket]) := by
  refine ⟨show 0 < maxRetries by decide, ?_, ?_⟩
  · show 1 + 0 ≤ maxRetries * max 1 W
    unfold maxRetries
    omega
  · show maxRetries - 0 ≤ maxRetries * (n + 1)
    rw [Nat.mul_succ]
    omega

/-- The window is sent once more. -/
theorem SenderView.repeats_window {s s' : σ} {out : List Bytes}
    (hs : v.Bounded W (.awaiting s)) (hretries : v.retries s' = v.retries s + 1)
    (hlt : v.retries s' < maxRetries) (hwidth : v.width s' ≤ W) (hleft : v.left s' = v.left s)
    (hout : out.length ≤ W) : v.Repeats W (.awaiting s) (.awaiting s', out) := by
  refine ⟨⟨hlt, hwidth⟩, ?_, Or.inl ?_⟩
  · show out.length + (maxRetries - 1 - v.retries s') * W ≤ (maxRetries - 1 - v.retries s) * W
    have hsucc : maxRetries - 1 - v.retries s = maxRetries - 1 - v.retries s' + 1 := by omega
    rw [hsucc, Nat.succ_mul]
    omega
  · show maxRetries - v.retries s' + maxRetries * v.left s'
      < maxRetries - v.retries s + maxRetries * v.left s
    rw [hleft]
    have := hs.1
    omega

/-- A new window is sent for the first time. -/
theorem SenderView.enters_window {s : σ} {out : List Bytes} {n : Nat} (hretries : v.retries s = 0)
    (hwidth : v.width s ≤ W) (hleft : v.left s ≤ n) (hout : out.length ≤ W) :
    v.Enters W n (.awaiting s, out) := by
  refine ⟨⟨by rw [hretries]; decide, hwidth⟩, ?_, ?_⟩
  · show out.length + (maxRetries - 1 - v.retries s) * W ≤ maxRetries * max 1 W
    rw [hretries]
    unfold maxRetries
    omega
  · show maxRetries - v.retries s + maxRetries * v.left s ≤ maxRetries * (n + 1)
    have hmul : maxRetries * v.left s ≤ maxRetries * n := Nat.mul_le_mul_left _ hleft
    rw [Nat.mul_succ]
    omega

end Steps

/-! ## ACKs -/

/-- An ACK has arrived, whatever its number. -/
def Recv.isAckPacket : Recv → Bool
  | .datagram d =>
      match header d with
      | some (opcode, _, _) => decide (opcode = Opcode.ack.toU16)
      | none => false
  | _ => false

theorem IsAck.isAckPacket {n : UInt16} {r : Recv} (h : IsAck n r) : r.isAckPacket = true := by
  obtain ⟨d, rest, rfl, hheader⟩ := h
  simp [Recv.isAckPacket, hheader]

/-- What an ACK adds to the credit. -/
def ackGain (W : Nat) (r : Recv) : Nat := if r.isAckPacket then maxRetries * max 1 W else 0

theorem ackGain_of_isAck {W : Nat} {n : UInt16} {r : Recv} (h : IsAck n r) :
    ackGain W r = maxRetries * max 1 W :=
  if_pos h.isAckPacket

/-- One step of a sender. -/
structure SenderView.Steps {σ : Type} (v : SenderView σ) (W : Nat) (s : SendStatus σ) (r : Recv)
    (next : SendStatus σ × List Bytes) : Prop where
  bounded : v.Bounded W next.1
  paid : next.2.length + v.credit W next.1 ≤ v.credit W s + ackGain W r
  rank : next.1.running = true → v.rank next.1 < v.rank s

section Steps

variable {σ : Type} {v : SenderView σ} {W : Nat} {s : SendStatus σ} {r : Recv}
  {next : SendStatus σ × List Bytes}

theorem SenderView.Repeats.steps (h : v.Repeats W s next) (r : Recv) : v.Steps W s r next where
  bounded := h.bounded
  paid := Nat.le_add_right_of_le h.paid
  rank := by
    intro hrun
    rcases h.rank with hlt | hstop
    · exact hlt
    · rw [hstop] at hrun
      cases hrun

theorem SenderView.Enters.steps {n : Nat} (h : v.Enters W n next) {k : UInt16} (hack : IsAck k r)
    (hrank : maxRetries * (n + 1) < v.rank s) : v.Steps W s r next where
  bounded := h.bounded
  paid := by
    rw [ackGain_of_isAck hack]
    exact Nat.le_add_left_of_le h.paid
  rank := fun _ => Nat.lt_of_le_of_lt h.rank hrank

end Steps

/-! ## The buffered sender -/

section Buffered

variable {fileData : Bytes} {b W : Nat}

def bufferedView (fileData : Bytes) (b : Nat) : SenderView BufferedState where
  retries := (·.retries)
  width := (·.windowPackets.length)
  left := fun s => (fileData.length - s.offset) / b

theorem length_buildWindowBuffered_le (fileData : Bytes) (b : Nat) : ∀ (room offset : Nat)
    (blockNum : UInt16), (buildWindowBuffered fileData b room offset blockNum).1.length ≤ room := by
  intro room
  induction room with
  | zero => intro offset blockNum; exact Nat.le_refl _
  | succ room ih =>
      intro offset blockNum
      rw [buildWindowBuffered]
      by_cases hoffset : offset ≤ fileData.length
      · rw [if_pos hoffset]
        dsimp only
        by_cases hfinal : min b (fileData.length - offset) < b
        · rw [if_pos hfinal]
          exact Nat.succ_le_succ (Nat.zero_le _)
        · rw [if_neg hfinal]
          exact Nat.succ_le_succ (ih _ _)
      · rw [if_neg hoffset]
        exact Nat.zero_le _

/-- Behind an acknowledged window there is a block of `b` bytes for each of its packets. -/
theorem advanceBuffered_le : ∀ (entries : List WindowPacket) {offset offset' : Nat}
    {blockNum blockNum' : UInt16},
    advanceBuffered fileData b entries offset blockNum = .inr (offset', blockNum') →
      offset + entries.length * b ≤ offset' := by
  intro entries
  induction entries with
  | nil =>
      intro offset offset' blockNum blockNum' h
      cases h
      simp
  | cons entry entries ih =>
      intro offset offset' blockNum blockNum' h
      rw [advanceBuffered] at h
      split_ifs at h with hfinal
      have hrest := ih h
      rw [List.length_cons, Nat.succ_mul]
      omega

theorem nextWindowBuffered_enters (offset : Nat) (blockNum : UInt16) (eofSent : Bool) :
    (bufferedView fileData b).Enters W ((fileData.length - offset) / b)
      (nextWindowBuffered fileData b W offset blockNum eofSent) := by
  have hlen := length_buildWindowBuffered_le fileData b W offset blockNum
  unfold nextWindowBuffered
  split_ifs with hmore
  · simp only
    split_ifs
    · exact .stops _ _
    · rw [sendWindowBuffered, if_neg (show ¬ 0 ≥ maxRetries by decide)]
      exact SenderView.enters_window rfl hlen (Nat.le_refl _) (by
        rw [List.length_map]
        exact hlen)
  · exact .stops _ _

theorem nextWindowBuffered_past {offset : Nat} (h : fileData.length < offset)
    (blockNum : UInt16) (eofSent : Bool) :
    nextWindowBuffered fileData b W offset blockNum eofSent = (.done .loopEnded, []) :=
  if_neg fun hle => absurd hle.1 (Nat.not_le.mpr h)

/-- **Step of the buffered sender.** -/
theorem buffered_steps (hb : 0 < b) {s : SendStatus BufferedState}
    (hs : (bufferedView fileData b).Bounded W s) (hrun : s.running = true) (r : Recv) :
    (bufferedView fileData b).Steps W s r (sendFileDataBufferedStep fileData b W s r) := by
  cases s with
  | done e => cases hrun
  | awaitingEmpty retry => exact (SenderView.repeats_awaitEmpty retry r).steps r
  | awaiting s =>
      have hagain : (bufferedView fileData b).Repeats W (.awaiting s)
          (sendWindowBuffered { s with retries := s.retries + 1 }) := by
        unfold sendWindowBuffered
        split_ifs with hmax
        · exact .stops _ _
        · exact SenderView.repeats_window hs rfl (Nat.not_le.mp hmax) hs.2 rfl (by
            rw [List.length_map]
            exact hs.2)
      rw [sendFileDataBufferedStep]
      split
      · exact (SenderView.Repeats.stops _ _).steps r
      · rename_i last hlast
        split
        · rename_i hok
          have hack := (waitForAckWithDuplicateHandling_eq_ok_true_iff _ _).mp hok
          split
          · exact (SenderView.Repeats.stops _ _).steps r
          · rename_i offset blockNum hadvance
            -- a window has a packet, so a block has been passed
            have hpos : 0 < s.windowPackets.length := by
              cases hw : s.windowPackets with
              | nil =>
                  rw [hw] at hlast
                  cases hlast
              | cons entry entries => exact Nat.succ_pos _
            have hoffset := advanceBuffered_le s.windowPackets hadvance
            have hblock : b ≤ s.windowPackets.length * b := Nat.le_mul_of_pos_left _ hpos
            by_cases hpast : fileData.length < offset
            · rw [nextWindowBuffered_past hpast]
              exact (SenderView.Repeats.stops _ _).steps r
            · refine (nextWindowBuffered_enters offset blockNum s.eofSent).steps hack ?_
              have hdiv : (fileData.length - offset) / b + 1 ≤ (fileData.length - s.offset) / b := by
                rw [← Nat.add_div_right _ hb]
                exact Nat.div_le_div_right (by omega)
              have hmul := Nat.mul_le_mul_left maxRetries hdiv
              have hretries : s.retries < maxRetries := hs.1
              show maxRetries * ((fileData.length - offset) / b + 1)
                < maxRetries - s.retries + maxRetries * ((fileData.length - s.offset) / b)
              omega
        · exact hagain.steps r

end Buffered

/-! ## The streaming sender -/

section Streaming

variable {file : Bytes} {mode : TransferMode} {b W : Nat}

/-- After the end of the file there is no further window. -/
def streamView (file : Bytes) (b : Nat) : SenderView StreamState where
  retries := (·.retries)
  width := (·.windowPackets.length)
  left := fun s => if s.eofReached then 0 else (file.length - s.cursor) / b + 1

/-- The size of a window, and where the file handle stands after a window of full blocks. -/
structure StreamBuilt (file : Bytes) (b room cursor : Nat)
    (w : List StreamPacket × Nat × UInt16 × Bool) : Prop where
  length : w.1.length ≤ room
  moved : w.2.2.2 = false → 0 < room → cursor + b ≤ w.2.1 ∧ w.2.1 ≤ file.length

theorem streamBuilt (file : Bytes) (mode : TransferMode) (hb : 0 < b) :
    ∀ (room cursor : Nat) (blockNum : UInt16),
      StreamBuilt file b room cursor (buildWindowStreaming file mode b room cursor blockNum) := by
  intro room
  induction room with
  | zero =>
      intro cursor blockNum
      exact ⟨Nat.le_refl _, fun _ hroom => absurd hroom (Nat.lt_irrefl 0)⟩
  | succ room ih =>
      intro cursor blockNum
      rw [buildWindowStreaming]
      dsimp only
      by_cases hfinal : ((file.drop cursor).take b).length < b
      · simp only [hfinal, decide_true, if_true]
        exact ⟨Nat.succ_le_succ (Nat.zero_le _), fun heof => Bool.noConfusion heof⟩
      · simp only [hfinal, decide_false, Bool.false_eq_true, if_false]
        have hread : ((file.drop cursor).take b).length = b :=
          Nat.le_antisymm (List.length_take_le _ _) (Nat.not_lt.mp hfinal)
        have hrest := ih (cursor + b) (blockNum + 1)
        rw [hread]
        refine ⟨Nat.succ_le_succ hrest.length, fun heof _ => ?_⟩
        by_cases hroom : 0 < room
        · obtain ⟨hmoved, hle⟩ := hrest.moved heof hroom
          exact ⟨Nat.le_trans (Nat.le_add_right _ _) hmoved, hle⟩
        · -- the block was the last one of its window, and the file holds it
          rw [Nat.eq_zero_of_not_pos hroom]
          rw [List.length_take, List.length_drop] at hread
          exact ⟨Nat.le_refl _, show cursor + b ≤ file.length by omega⟩

theorem nextWindowStreaming_enters (hb : 0 < b) (cursor : Nat) (blockNum : UInt16)
    (bytesTransferred : Nat) :
    (streamView file b).Enters W ((file.length - cursor) / b)
      (nextWindowStreaming file mode b W cursor blockNum bytesTransferred false) := by
  have hbuilt := streamBuilt file mode hb W cursor blockNum
  unfold nextWindowStreaming
  simp only [Bool.false_eq_true, if_false]
  split_ifs with hentries
  · exact .stops _ _
  · rw [sendWindowStreaming, if_neg (show ¬ 0 ≥ maxRetries by decide)]
    have hlen := hbuilt.length
    refine SenderView.enters_window rfl hlen ?_ (by
      rw [List.length_map]
      exact hlen)
    show (if (buildWindowStreaming file mode b W cursor blockNum).2.2.2 then 0
      else (file.length - (buildWindowStreaming file mode b W cursor blockNum).2.1) / b + 1)
        ≤ (file.length - cursor) / b
    split_ifs with heof
    · exact Nat.zero_le _
    · have hroom : 0 < W := Nat.lt_of_lt_of_le (List.length_pos_of_ne_nil hentries) hlen
      obtain ⟨hmoved, hle⟩ := hbuilt.moved (Bool.not_eq_true _ ▸ heof) hroom
      rw [← Nat.add_div_right _ hb]
      exact Nat.div_le_div_right (by omega)

/-- **Step of the streaming sender.** -/
theorem streaming_steps (mode : TransferMode) (hb : 0 < b) {s : SendStatus StreamState}
    (hs : (streamView file b).Bounded W s) (hrun : s.running = true) (r : Recv) :
    (streamView file b).Steps W s r (sendFileDataStreamingStep file mode b W s r) := by
  cases s with
  | done e => cases hrun
  | awaitingEmpty retry => exact (SenderView.repeats_awaitEmpty retry r).steps r
  | awaiting s =>
      have hagain : (streamView file b).Repeats W (.awaiting s)
          (sendWindowStreaming { s with retries := s.retries + 1 }) := by
        unfold sendWindowStreaming
        split_ifs with hmax
        · exact .stops _ _
        · exact SenderView.repeats_window hs rfl (Nat.not_le.mp hmax) hs.2 rfl (by
            rw [List.length_map]
            exact hs.2)
      rw [sendFileDataStreamingStep]
      split
      · exact (SenderView.Repeats.stops _ _).steps r
      · rename_i last hlast
        split
        · rename_i hok
          have hack := (waitForAckWithDuplicateHandling_eq_ok_true_iff _ _).mp hok
          split
          · exact (SenderView.Repeats.stops _ _).steps r
          · rename_i bytesTransferred hadvance
            split_ifs with heof
            · exact (SenderView.Repeats.stops _ _).steps r
            · rw [Bool.not_eq_true] at heof
              rw [heof]
              refine (nextWindowStreaming_enters hb s.cursor s.blockNum bytesTransferred).steps
                hack ?_
              have hretries : s.retries < maxRetries := hs.1
              show maxRetries * ((file.length - s.cursor) / b + 1) < maxRetries - s.retries
                + maxRetries * (if s.eofReached then 0 else (file.length - s.cursor) / b + 1)
              rw [heof, if_neg Bool.false_ne_true]
              omega
        · exact hagain.steps r

end Streaming

/-! ## Read requests -/

/-- How much data there is to send. A directory has none: reading it fails. -/
def Source.size : Source → Nat
  | .buffered fileData => fileData.length
  | .streaming (.regular content) => content.length
  | .streaming (.directory _) => 0

/-- The size of what a request for `opened` reads from. -/
def requestedSize (mode : TransferMode) : Option OpenFile → Nat
  | some (.regular content) =>
      if mode = .netascii ∧ content.length ≤ netasciiBufferLimit then
        (convertToNetascii content).length
      else content.length
  | _ => 0

section Read

variable {mode : TransferMode} {options : TftpOptions} {b W : Nat}

def ReadStatus.Bounded (b W : Nat) : ReadStatus → Prop
  | .oackWait _ retry => retry < maxRetries
  | .buffered fileData s => (bufferedView fileData b).Bounded W s
  | .streaming file s => (streamView file b).Bounded W s
  | .ended _ => True

def ReadStatus.credit (b W : Nat) : ReadStatus → Nat
  | .buffered fileData s => (bufferedView fileData b).credit W s
  | .streaming file s => (streamView file b).credit W s
  | _ => 0

def ReadStatus.rank (b : Nat) : ReadStatus → Nat
  | .oackWait source retry => maxRetries - retry + maxRetries * (source.size / b + 1)
  | .buffered fileData s => (bufferedView fileData b).rank s
  | .streaming file s => (streamView file b).rank s
  | .ended _ => 0

/-- A request is under way, with `n` bytes to send and `waits` rounds of waiting before. -/
structure ReadStatus.Begins (b W waits n : Nat) (next : ReadStatus × List Bytes) : Prop where
  bounded : next.1.Bounded b W
  paid : next.2.length + next.1.credit b W ≤ maxRetries * max 1 W
  rank : next.1.rank b ≤ maxRetries * (n / b + 1 + waits)

theorem ReadStatus.Begins.ended (waits n : Nat) (result : Except TftpError Unit)
    {out : List Bytes} (hout : out.length ≤ 1) :
    ReadStatus.Begins b W waits n (.ended result, out) := by
  refine ⟨trivial, ?_, Nat.zero_le _⟩
  show out.length + 0 ≤ maxRetries * max 1 W
  unfold maxRetries
  omega

theorem SenderView.Enters.buffered {fileData : Bytes} {next : SendStatus BufferedState × List Bytes}
    (h : (bufferedView fileData b).Enters W (fileData.length / b) next) :
    ReadStatus.Begins b W 0 fileData.length (.buffered fileData next.1, next.2) :=
  ⟨h.bounded, h.paid, h.rank⟩

theorem SenderView.Enters.streaming {file : Bytes} {next : SendStatus StreamState × List Bytes}
    (h : (streamView file b).Enters W (file.length / b) next) :
    ReadStatus.Begins b W 0 file.length (.streaming file next.1, next.2) :=
  ⟨h.bounded, h.paid, h.rank⟩

theorem startSending_begins (mode : TransferMode) (hb : 0 < options.blockSize) (source : Source) :
    ReadStatus.Begins options.blockSize options.windowsize 0 source.size
      (startSending mode options source) := by
  cases source with
  | buffered fileData =>
      refine SenderView.Enters.buffered ?_
      show (bufferedView fileData options.blockSize).Enters options.windowsize _
        (if fileData = [] then _ else _)
      split_ifs
      · exact SenderView.enters_empty _
      · exact nextWindowBuffered_enters 0 1 false
  | streaming file =>
      cases file with
      | regular content =>
          refine SenderView.Enters.streaming ?_
          show (streamView content options.blockSize).Enters options.windowsize _
            (if content.length = 0 then _ else _)
          split_ifs
          · exact SenderView.enters_empty _
          · exact nextWindowStreaming_enters hb 0 1 0
      | directory len =>
          rw [startSending]
          split_ifs
          · have hempty : (streamView [] options.blockSize).Enters options.windowsize
                (([] : Bytes).length / options.blockSize) (.awaitingEmpty 0, [emptyFilePacket]) :=
              SenderView.enters_empty _
            exact hempty.streaming
          · exact .ended _ _ _ (Nat.zero_le _)

/-- What the function sends before the first wait: a request that agrees on options sends
nothing but the OACK. -/
structure ReadStatus.Starts (mode : TransferMode) (options : TftpOptions)
    (negotiatedOptions : OptionMap) (n : Nat) (next : ReadStatus × List Bytes) : Prop where
  begins : ReadStatus.Begins options.blockSize options.windowsize 1 n next
  silent : negotiatedOptions.entries ≠ [] →
    next.2.length ≤ 1 ∧ next.1.credit options.blockSize options.windowsize = 0 ∧
      ((∃ source retry, next.1 = .oackWait source retry) ∨ next.1.running = false)

theorem ReadStatus.Starts.ended {negotiatedOptions : OptionMap} (n : Nat)
    (result : Except TftpError Unit) {out : List Bytes} (hout : out.length ≤ 1) :
    ReadStatus.Starts mode options negotiatedOptions n (.ended result, out) :=
  ⟨.ended _ _ _ hout, fun _ => ⟨hout, rfl, Or.inr rfl⟩⟩

theorem sendOack_starts (mode : TransferMode) (hb : 0 < options.blockSize)
    (negotiatedOptions : OptionMap) (order : IterOrder) (source : Source) (tsize : Nat) :
    ReadStatus.Starts mode options negotiatedOptions source.size
      (sendOack mode options negotiatedOptions order source tsize) := by
  unfold sendOack
  simp only [entries_fill_tsize_eq_nil]
  by_cases hempty : negotiatedOptions.entries = []
  · rw [if_pos hempty]
    have hsending := startSending_begins mode hb source
    exact ⟨⟨hsending.bounded, hsending.paid, Nat.le_trans hsending.rank
      (Nat.mul_le_mul_left _ (Nat.le_succ _))⟩, fun hne => absurd hempty hne⟩
  · rw [if_neg hempty]
    refine ⟨⟨show 0 < maxRetries by decide, ?_, ?_⟩, fun _ => ⟨Nat.le_refl _, rfl, ?_⟩⟩
    · show 1 + 0 ≤ maxRetries * max 1 options.windowsize
      unfold maxRetries
      omega
    · show maxRetries - 0 + maxRetries * (source.size / options.blockSize + 1)
        ≤ maxRetries * (source.size / options.blockSize + 1 + 1)
      rw [Nat.mul_succ maxRetries (source.size / options.blockSize + 1)]
      omega
    · exact Or.inl ⟨source, 0, rfl⟩

theorem startReadRequest_starts (hb : 0 < options.blockSize) (opened : Option OpenFile)
    (negotiatedOptions : OptionMap) (maxFileSizeBytes : Nat) (order : IterOrder) :
    ReadStatus.Starts mode options negotiatedOptions (requestedSize mode opened)
      (startReadRequest opened mode options negotiatedOptions maxFileSizeBytes order) := by
  unfold startReadRequest
  cases opened with
  | none => exact .ended _ _ (Nat.le_refl _)
  | some file =>
      dsimp only
      split_ifs with hmax hsmall
      · exact .ended _ _ (Nat.le_refl _)
      · cases file with
        | directory len => exact .ended _ _ (Nat.zero_le _)
        | regular content =>
            have hsmall : mode = .netascii ∧ content.length ≤ netasciiBufferLimit := hsmall
            rw [requestedSize, if_pos hsmall]
            exact sendOack_starts mode hb negotiatedOptions order (.buffered _) _
      · cases file with
        | directory len =>
            exact sendOack_starts mode hb negotiatedOptions order (.streaming (.directory len)) _
        | regular content =>
            have hsmall : ¬ (mode = .netascii ∧ content.length ≤ netasciiBufferLimit) := hsmall
            rw [requestedSize, if_neg hsmall]
            exact sendOack_starts mode hb negotiatedOptions order (.streaming (.regular content)) _

theorem isAck_of_waitForAck {n : UInt16} {retry : Nat} {r : Recv}
    (h : waitForAck n retry r = .accepted) : IsAck n r := by
  rw [← waitForAckTurn_eq_accepted_iff]
  unfold waitForAck at h
  split at h
  · split_ifs at h
  · exact h

theorem retry_of_waitForAck {n : UInt16} {retry : Nat} {r : Recv}
    (h : waitForAck n retry r = .again) : retry + 1 < maxRetries := by
  unfold waitForAck at h
  split at h
  · split_ifs at h with hlt
    exact hlt
  · rename_i hne
    exact absurd h hne

/-- One step of a read request. -/
structure ReadStatus.Steps (b W : Nat) (s : ReadStatus) (r : Recv)
    (next : ReadStatus × List Bytes) : Prop where
  bounded : next.1.Bounded b W
  paid : next.2.length + next.1.credit b W ≤ s.credit b W + ackGain W r
  rank : next.1.running = true → next.1.rank b < s.rank b

/-- **Step of a read request.** -/
theorem readRequest_steps (hb : 0 < options.blockSize) {s : ReadStatus}
    (hs : s.Bounded options.blockSize options.windowsize) (hrun : s.running = true) (r : Recv) :
    s.Steps options.blockSize options.windowsize r (readRequestStep mode options s r) := by
  cases s with
  | ended result => cases hrun
  | buffered fileData s =>
      have hstep := buffered_steps hb hs hrun r
      exact ⟨hstep.bounded, hstep.paid, hstep.rank⟩
  | streaming file s =>
      have hstep := streaming_steps mode hb hs hrun r
      exact ⟨hstep.bounded, hstep.paid, hstep.rank⟩
  | oackWait source retry =>
      have hretry : retry < maxRetries := hs
      rw [readRequestStep]
      split
      · rename_i haccepted
        have hsending := startSending_begins mode hb source
        refine ⟨hsending.bounded, ?_, fun _ => Nat.lt_of_le_of_lt hsending.rank ?_⟩
        · rw [ackGain_of_isAck (isAck_of_waitForAck haccepted)]
          exact Nat.le_add_left_of_le hsending.paid
        · show maxRetries * (source.size / options.blockSize + 1)
            < maxRetries - retry + maxRetries * (source.size / options.blockSize + 1)
          omega
      · exact ⟨trivial, Nat.zero_le _, fun hrun => Bool.noConfusion hrun⟩
      · rename_i hagain
        have hlt := retry_of_waitForAck hagain
        refine ⟨hlt, Nat.zero_le _, fun _ => ?_⟩
        show maxRetries - (retry + 1) + maxRetries * (source.size / options.blockSize + 1)
          < maxRetries - retry + maxRetries * (source.size / options.blockSize + 1)
        omega

theorem SenderView.rank_pos {σ : Type} {v : SenderView σ} {s : SendStatus σ} (hs : v.Bounded W s)
    (hrun : s.running = true) : 0 < v.rank s := by
  cases s with
  | done e => cases hrun
  | awaitingEmpty retry => exact Nat.sub_pos_of_lt hs
  | awaiting s => exact Nat.add_pos_left (Nat.sub_pos_of_lt hs.1) _

theorem ReadStatus.rank_pos {s : ReadStatus} (hs : s.Bounded b W) (hrun : s.running = true) :
    0 < s.rank b := by
  cases s with
  | ended result => cases hrun
  | oackWait source retry => exact Nat.add_pos_left (Nat.sub_pos_of_lt hs) _
  | buffered fileData s => exact (bufferedView fileData b).rank_pos hs hrun
  | streaming file s => exact (streamView file b).rank_pos hs hrun

theorem sum_ackGain (W : Nat) (rs : List Recv) :
    (rs.map (ackGain W)).sum = maxRetries * max 1 W * rs.countP Recv.isAckPacket := by
  induction rs with
  | nil => rfl
  | cons r rs ih =>
      rw [List.map_cons, List.sum_cons, ih, List.countP_cons, Nat.mul_add, ackGain, Nat.add_comm]
      congr 1
      cases r.isAckPacket <;> simp

/-- What a run sends is paid by its start and by the ACKs that arrive. -/
theorem length_sent_readRequest_le (opened : Option OpenFile) (mode : TransferMode)
    (hb : 0 < options.blockSize) (negotiatedOptions : OptionMap) (maxFileSizeBytes : Nat)
    (order : IterOrder) (rs : List Recv) :
    let m := handleReadRequest opened mode options negotiatedOptions maxFileSizeBytes order
    (m.sent rs).length ≤ m.start.2.length
      + m.start.1.credit options.blockSize options.windowsize
      + maxRetries * max 1 options.windowsize * rs.countP Recv.isAckPacket := by
  intro m
  have hstart : ReadStatus.Starts mode options negotiatedOptions (requestedSize mode opened)
      m.start := startReadRequest_starts hb opened negotiatedOptions maxFileSizeBytes order
  have hstep : ∀ s r, s.Bounded options.blockSize options.windowsize → m.running s = true →
      s.Steps options.blockSize options.windowsize r (m.step s r) :=
    fun _ r hs hrun => readRequest_steps hb hs hrun r
  have hcredit := sentFrom_le_credit (ReadStatus.credit options.blockSize options.windowsize)
    (ackGain options.windowsize) (fun s r hs hrun => (hstep s r hs hrun).bounded)
    (fun s r hs hrun => (hstep s r hs hrun).paid) rs m.start.1 hstart.begins.bounded
  rw [sum_ackGain] at hcredit
  rw [sent, List.length_append]
  omega

/-- **A read request costs the server no more than this.** Whatever arrives on the socket of the
transfer: it sends at most `maxRetries` windows and as many again for each ACK packet that
arrives; when it agrees on options, an address that never sends an ACK gets at most one packet
from it; and after a number of waits that the size of the data bounds it has returned. -/
theorem read_transfer_bounded (opened : Option OpenFile) (mode : TransferMode)
    (options : TftpOptions) (hb : 0 < options.blockSize) (negotiatedOptions : OptionMap)
    (maxFileSizeBytes : Nat) (order : IterOrder) (rs : List Recv) :
    let m := handleReadRequest opened mode options negotiatedOptions maxFileSizeBytes order
    (m.sent rs).length
        ≤ maxRetries * max 1 options.windowsize * (1 + rs.countP Recv.isAckPacket) ∧
      (negotiatedOptions.entries ≠ [] → (∀ r ∈ rs, r.isAckPacket = false) →
        (m.sent rs).length ≤ 1) ∧
      (maxRetries * (requestedSize mode opened / options.blockSize + 2) ≤ rs.length →
        m.running (m.stateAfter rs) = false) := by
  intro m
  have hstart : ReadStatus.Starts mode options negotiatedOptions (requestedSize mode opened)
      m.start := startReadRequest_starts hb opened negotiatedOptions maxFileSizeBytes order
  have hsent := length_sent_readRequest_le opened mode hb negotiatedOptions maxFileSizeBytes
    order rs
  refine ⟨?_, fun hoptions hsilent => ?_, fun hlong => ?_⟩
  · have hpaid := hstart.begins.paid
    rw [Nat.mul_add, Nat.mul_one]
    exact Nat.le_trans hsent (Nat.add_le_add_right hpaid _)
  · obtain ⟨hout, hcredit, -⟩ := hstart.silent hoptions
    have hnone : rs.countP Recv.isAckPacket = 0 :=
      List.countP_eq_zero.mpr fun r hr => by simp [hsilent r hr]
    calc (m.sent rs).length
        ≤ m.start.2.length + m.start.1.credit options.blockSize options.windowsize
          + maxRetries * max 1 options.windowsize * rs.countP Recv.isAckPacket := hsent
      _ = m.start.2.length := by rw [hcredit, hnone, Nat.mul_zero]; rfl
      _ ≤ 1 := hout
  · have hstep : ∀ s r, s.Bounded options.blockSize options.windowsize → m.running s = true →
        s.Steps options.blockSize options.windowsize r (m.step s r) :=
      fun _ r hs hrun => readRequest_steps hb hs hrun r
    exact stopped_of_rank (ReadStatus.rank options.blockSize)
      (fun s r hs hrun => (hstep s r hs hrun).bounded) (fun _ hs hrun => ReadStatus.rank_pos hs hrun)
      (fun s r hs hrun hnext => (hstep s r hs hrun).rank hnext) rs m.start.1
      hstart.begins.bounded (Nat.le_trans hstart.begins.rank hlong)

/-- An address that answers nothing gets one block of an opened file or one OACK, and then it is
over. -/
theorem read_transfer_bounded_silent :
    let plain := handleReadRequest (some (.regular [65])) .octet {} ∅ 0 .entries
    let agreeing := handleReadRequest (some (.regular [65])) .octet {}
      (AList.insert "tsize" "0" ∅) 0 .entries
    let silence := List.replicate 10 Recv.timeout
    ((plain.sent silence).length ≤ 5 ∧ plain.running (plain.stateAfter silence) = false) ∧
      (agreeing.sent silence).length ≤ 1 ∧
        agreeing.running (agreeing.stateAfter silence) = false := by
  obtain ⟨hsent, -, hstopped⟩ := read_transfer_bounded (some (.regular [65])) .octet {}
    (by decide) ∅ 0 .entries (List.replicate 10 .timeout)
  obtain ⟨-, hsilent, hstopped'⟩ := read_transfer_bounded (some (.regular [65])) .octet {}
    (by decide) (AList.insert "tsize" "0" ∅) 0 .entries (List.replicate 10 .timeout)
  exact ⟨⟨Nat.le_trans hsent (by decide), hstopped (by decide)⟩,
    hsilent (by decide) (by decide), hstopped' (by decide)⟩

end Read

end UsgTftp
