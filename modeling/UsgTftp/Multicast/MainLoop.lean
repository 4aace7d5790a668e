import UsgTftp.Multicast.Transfer

set_option autoImplicit false

/-! # The main loop of a transfer

A transfer first sends the blocks of its file one after the other, and each of them once. The loop
ends where no data is left: the last packet is a full one where the file is a multiple of the
block size, and there is no packet at all where it is empty. The packets are then not those that
a transfer to a single client sends, and no client can tell that the file is complete
(`mainLoop_segPackets_iff`).
-/

namespace UsgTftp

open Posix SeqNum Segment

/-! ## The blocks sent so far -/

/-- The first `n` blocks have been sent, and each of them holds data. -/
def TransferRun.Sent (r : TransferRun) (data : Bytes) (b n : Nat) : Prop :=
  sentPackets r.log = (List.range n).map (segPacket b data) ∧ ∀ k < n, k * b < data.length

/-- Where a transfer of `data` in blocks of `b` bytes stands in its main loop. -/
def TransferRun.Streamed (r : TransferRun) (data : Bytes) (b : Nat) : Prop :=
  match r.task.phase with
  | .spawned => sentPackets r.log = []
  | .sending offset blockNum =>
      r.task.fileData = data ∧ offset < data.length ∧
        ∃ k, offset = k * b ∧ blockNum = wire (k + 1) ∧ r.Sent data b k
  | .waiting offset blockNum =>
      r.task.fileData = data ∧ ∃ k, offset = k * b ∧ blockNum = wire (k + 1) ∧ r.Sent data b (k + 1)
  | .roundStart 0 => ∃ n, r.Sent data b n ∧ data.length ≤ n * b
  | _ => True

section

variable {r : TransferRun} {data : Bytes} {b : Nat}

theorem TransferRun.Streamed.of_phase {phase : TransferPhase} (h : r.Streamed data b)
    (hphase : r.task.phase = phase) :
    ({ r with task := { r.task with phase := phase } } : TransferRun).Streamed data b := by
  subst hphase
  exact h

theorem streamed_nextBlock {session : MulticastSession} {τ : TransferTask}
    {log : List MulticastRecord} (hdata : τ.fileData = data) {k : Nat}
    (hsent : (⟨session, τ, log⟩ : TransferRun).Sent data b k) :
    (⟨session, { τ with phase := nextBlock data (k * b) (wire (k + 1)) }, log⟩ :
      TransferRun).Streamed data b := by
  unfold nextBlock
  by_cases h : k * b < data.length
  · rw [if_pos h]
    exact ⟨hdata, h, k, rfl, rfl, hsent⟩
  · rw [if_neg h]
    exact ⟨k, hsent, Nat.le_of_not_lt h⟩

theorem streamed_advanceBlock {session : MulticastSession} {τ : TransferTask}
    {log : List MulticastRecord} (hdata : τ.fileData = data) {k : Nat}
    (hsent : (⟨session, τ, log⟩ : TransferRun).Sent data b (k + 1)) :
    (⟨session, { τ with phase := advanceBlock τ.fileData b (k * b) (wire (k + 1)) }, log⟩ :
      TransferRun).Streamed data b := by
  subst hdata
  have hnext : (k + 1) * b = k * b + b := Nat.succ_mul k b
  unfold advanceBlock
  by_cases hlast : min b (τ.fileData.length - k * b) < b
  · simp only [if_pos hlast]
    exact ⟨k + 1, hsent, by omega⟩
  · have hfull : k * b + min b (τ.fileData.length - k * b) = (k + 1) * b := by omega
    simp only [if_neg hlast, hfull, wire_add_one]
    exact streamed_nextBlock rfl hsent

end

section

variable {srv : MulticastServer} {t : Tree} {r : TransferRun} {data : Bytes} {b : Nat}

theorem TransferRun.Streamed.turn (h : r.Streamed data b)
    (hdata : srv.sessionData t r.session = data) (hb : r.session.options.blockSize = b)
    (e : TransferEvent) : (srv.turn t r e).Streamed data b := by
  cases e with
  | call c => exact h
  | io io =>
      obtain ⟨session, τ, log⟩ := r
      have hmove := @MulticastServer.transferStep_move srv t session τ io
      rw [MulticastServer.turn]
      generalize srv.transferStep t session τ io = next at hmove ⊢
      subst hdata hb
      simp only
      cases hmove with
      | idle => simpa using h
      | fails => trivial
      | opens hphase =>
          have hnone := h.of_phase hphase
          have hstart := @streamed_nextBlock (srv.sessionData t session)
            session.options.blockSize session { τ with fileData := srv.sessionData t session } log
            rfl 0 ⟨hnone, fun k hk => absurd hk (Nat.not_lt_zero k)⟩
          rwa [Nat.zero_mul, wire_one, ← List.append_nil log] at hstart
      | sends hphase =>
          obtain ⟨hdata, hlt, k, rfl, rfl, hsent, hfilled⟩ := h.of_phase hphase
          refine ⟨hdata, k, rfl, rfl, ?_, ?_⟩
          · simp only at hdata
            rw [sentPackets_append, hsent, hdata, List.range_succ, List.map_append]
            rfl
          · intro j hj
            rcases Nat.lt_succ_iff_lt_or_eq.mp hj with hj | rfl
            · exact hfilled j hj
            · exact hlt
      | acked hphase | elapses hphase =>
          obtain ⟨hdata, k, rfl, rfl, hsent⟩ := h.of_phase hphase
          rw [List.append_nil]
          exact streamed_advanceBlock hdata hsent
      | begins hphase timeoutSecs now clientOrder queueOrder hblocks =>
          unfold Streamed
          split_ifs <;> trivial
      | @skips retry blockNum rest hphase | @resends retry blockNum rest hphase =>
          cases rest with
          | nil =>
              unfold Streamed nextResend
              split_ifs <;> trivial
          | cons n rest => trivial

theorem TransferRun.runTransfer_streamed (h : r.Streamed data b)
    (hdata : srv.sessionData t r.session = data) (hb : r.session.options.blockSize = b)
    (events : List TransferEvent) : (srv.runTransfer t r events).Streamed data b := by
  induction events generalizing r with
  | nil => exact h
  | cons e events ih =>
      have hframe := @MulticastServer.turn_frame srv t r e
      refine ih (h.turn hdata hb e) ?_ ?_
      · rw [hframe.sessionData, hdata]
      · rw [hframe.2.2.1, hb]

end

theorem TransferRun.start_streamed (srv : MulticastServer) (t : Tree) (key : String)
    (session : MulticastSession) :
    (start key session).Streamed (srv.sessionData t session) session.options.blockSize := rfl

/-! ## The packets of the main loop -/

/-- The blocks that hold data are all blocks but the one at the very end. -/
theorem forall_lt_iff_blockCount {b : Nat} (hb : 0 < b) {data : Bytes} {n : Nat}
    (hn : ∀ k, k < n ↔ k * b < data.length) : n = blockCount b data ↔ ¬b ∣ data.length := by
  constructor
  · rintro rfl ⟨q, hq⟩
    have hlast : q < blockCount b data := by
      rw [lt_blockCount_iff hb, hq, Nat.mul_comm]
    have := (hn q).mp hlast
    rw [hq, Nat.mul_comm] at this
    exact Nat.lt_irrefl _ this
  · intro hdvd
    refine eq_of_forall_lt_iff fun k => ?_
    rw [hn, lt_blockCount_iff hb, Nat.lt_iff_le_and_ne]
    constructor
    · exact And.left
    · intro hle
      exact ⟨hle, fun h => hdvd ⟨k, by rw [← h, Nat.mul_comm]⟩⟩

/-- **The packets of the main loop** are the blocks of the file up to a short one exactly where
the length of the file is no multiple of the block size. -/
theorem mainLoop_segPackets_iff (srv : MulticastServer) (t : Tree) (key : String)
    (session : MulticastSession) (events : List TransferEvent)
    (hb : 0 < session.options.blockSize)
    (hdone : (srv.runTransfer t (.start key session) events).task.phase = .roundStart 0) :
    sentPackets (srv.runTransfer t (.start key session) events).log
        = segPackets session.options.blockSize (srv.sessionData t session) ↔
      ¬session.options.blockSize ∣ (srv.sessionData t session).length := by
  have hstream := TransferRun.runTransfer_streamed (TransferRun.start_streamed srv t key session)
    rfl rfl events
  obtain ⟨n, ⟨hsent, hfilled⟩, hend⟩ := hstream.of_phase hdone
  have hn : ∀ k, k < n ↔ k * session.options.blockSize < (srv.sessionData t session).length := by
    intro k
    refine ⟨hfilled k, fun hk => ?_⟩
    by_contra hle
    have := Nat.mul_le_mul_right session.options.blockSize (Nat.le_of_not_lt hle)
    omega
  rw [← forall_lt_iff_blockCount hb hn]
  simp only at hsent
  rw [hsent, segPackets]
  constructor
  · intro h
    simpa using congrArg List.length h
  · rintro rfl
    rfl

/-- The session of the file `a`, which is sent in blocks of eight bytes. -/
def eightByteSession : MulticastSession :=
  .new (Path.ofString "/srv/tftp/a") .octet { blockSize := 8 } (.v4 0xe0000101) 1758 10

/-- One block is sent, and nobody acknowledges it. -/
def oneBlockEvents : List TransferEvent := [.io (.opened true), .io (.sent true), .io .elapsed]

theorem mainLoop_segPackets_iff_short :
    sentPackets (plainServer.runTransfer twoFileTree (.start "a:Octet" eightByteSession)
        oneBlockEvents).log
        = segPackets 8 (plainServer.sessionData twoFileTree eightByteSession) ↔
      ¬8 ∣ (plainServer.sessionData twoFileTree eightByteSession).length :=
  mainLoop_segPackets_iff plainServer twoFileTree "a:Octet" eightByteSession oneBlockEvents
    (by decide) (by decide +kernel)

def eightBytes : Bytes := [1, 2, 3, 4, 5, 6, 7, 8]

/-- **No end of the file.** Eight bytes in blocks of eight are one full packet; a transfer to a
single client has an empty one after it. -/
theorem full_block_unended :
    let r := plainServer.runTransfer (twoFileTree.setContent 0 eightBytes)
      (.start "a:Octet" eightByteSession) oneBlockEvents
    r.task.phase = .roundStart 0 ∧
      sentPackets r.log = [dataPacket 1 eightBytes] ∧
      sentPackets r.log ≠ segPackets 8
        (plainServer.sessionData (twoFileTree.setContent 0 eightBytes) eightByteSession) := by
  decide +kernel

end UsgTftp
