import UsgTftp.Multicast.Transfer

set_option autoImplicit false

/-! # Retransmission rounds

After its main loop a transfer sends the queued blocks again, in up to three rounds. Each round
takes the whole queue, and nothing fills it again.

What a round sends is found by the number of the block, of which a long file has several of each.
The blocks that it sends are the queued ones exactly where these are among the first 65535 of the
file (`resendsOriginals_iff`). As the queue is empty after the first round, a later round sends
nothing, whoever still waits for a block (`rounds_retransmit_iff`).
-/

namespace UsgTftp

open HashTable Posix Reactive SeqNum Segment

/-- A transfer of `data` that is done with its main loop. -/
def TransferRun.retransmitting (key : String) (data : Bytes) (session : MulticastSession) :
    TransferRun :=
  ⟨session, ⟨key, data, .roundStart 0⟩, []⟩

/-- Other tasks leave the queue of the session alone. -/
def TransferEvent.KeepsQueue : TransferEvent → Prop
  | .call c => c.KeepsQueue
  | .io _ => True

/-! ## The queue -/

/-- From the first round on the queue is empty. -/
def TransferRun.Drained (r : TransferRun) : Prop :=
  match r.task.phase with
  | .roundStart 0 | .ended | .failed => True
  | .roundStart (_ + 1) | .resending _ _ => size r.session.retransmitQueue = 0
  | _ => False

section

variable {srv : MulticastServer} {t : Tree} {r : TransferRun}

theorem TransferRun.Drained.of_phase {phase : TransferPhase} (h : r.Drained)
    (hphase : r.task.phase = phase) :
    ({ r with task := { r.task with phase := phase } } : TransferRun).Drained := by
  subst hphase
  exact h

theorem drained_nextResend {session : MulticastSession} {τ : TransferTask}
    {log : List MulticastRecord} (hempty : size session.retransmitQueue = 0) (retry : Nat)
    (rest : List UInt16) :
    (⟨session, { τ with phase := nextResend retry rest }, log⟩ : TransferRun).Drained := by
  cases rest with
  | nil =>
      unfold nextResend
      split_ifs
      · exact hempty
      · trivial
  | cons n rest => exact hempty

theorem TransferRun.Drained.turn (h : r.Drained) {e : TransferEvent} (he : e.KeepsQueue) :
    (srv.turn t r e).Drained := by
  cases e with
  | call c =>
      unfold Drained at h ⊢
      simp only [MulticastServer.turn, MulticastSession.retransmitQueue_call _ he]
      exact h
  | io io =>
      obtain ⟨session, τ, log⟩ := r
      have hmove := @MulticastServer.transferStep_move srv t session τ io
      rw [MulticastServer.turn]
      generalize srv.transferStep t session τ io = next at hmove ⊢
      simp only
      cases hmove with
      | idle => exact h
      | fails => trivial
      | opens hphase | sends hphase | acked hphase | elapses hphase =>
          exact (h.of_phase hphase).elim
      | begins hphase timeoutSecs now clientOrder queueOrder hblocks =>
          unfold Drained
          split_ifs <;> trivial
      | skips hphase | resends hphase =>
          have hempty := h.of_phase hphase
          exact drained_nextResend hempty _ _

end

/-! ## The blocks of a round -/

/-- The blocks of `data` at these positions are queued, and only these are sent again: each
packet is that of the main loop, no position is found by a number that stands for another one,
and a transfer that has come to its end has sent all of them. -/
structure TransferRun.ResendsOriginals (srv : MulticastServer) (r : TransferRun) (data : Bytes)
    (b : Nat) (positions : Set Nat) : Prop where
  offsets : ∀ k ∈ positions, wire (k + 1) ≠ 0 ∧ srv.blockIndex (wire (k + 1)) = some k
  packets : ∀ packet ∈ sentPackets r.log, ∃ k ∈ positions, packet = segPacket b data k
  all : r.task.phase = .ended → ∀ k ∈ positions, segPacket b data k ∈ sentPackets r.log

/-- What is sent of the queued blocks and what is still to be sent. -/
def TransferRun.Progress (r : TransferRun) (data : Bytes) (b : Nat) (positions : Set Nat) : Prop :=
  match r.task.phase with
  | .roundStart 0 => ∀ n, n ∈ r.session.retransmitQueue ↔ ∃ k ∈ positions, n = wire (k + 1)
  | .resending _ blocks =>
      (∀ n ∈ blocks, ∃ k ∈ positions, n = wire (k + 1)) ∧
        ∀ k ∈ positions, wire (k + 1) ∈ blocks ∨ segPacket b data k ∈ sentPackets r.log
  | .failed => True
  | _ => ∀ k ∈ positions, segPacket b data k ∈ sentPackets r.log

structure TransferRun.Resending (r : TransferRun) (data : Bytes) (b : Nat) (positions : Set Nat) :
    Prop where
  fileData : r.task.fileData = data
  blockSize : r.session.options.blockSize = b
  drained : r.Drained
  packets : ∀ packet ∈ sentPackets r.log, ∃ k ∈ positions, packet = segPacket b data k
  progress : r.Progress data b positions

/-- The number of a block among the first 65535 gives its position. -/
theorem MulticastServer.blockIndex_wire (srv : MulticastServer) {k : Nat} :
    wire (k + 1) ≠ 0 ∧ srv.blockIndex (wire (k + 1)) = some k ↔ k < 65535 := by
  constructor
  · rintro ⟨hne, hindex⟩
    have hk : k = (wire k).toNat := by
      rw [← wire_sub_one]
      exact blockIndex_eq_some hindex
    rw [toNat_wire] at hk
    by_contra hle
    obtain rfl : k = 65535 := by omega
    exact hne rfl
  · intro hk
    have hne : wire (k + 1) ≠ 0 := by
      intro h
      have := congrArg UInt16.toNat h
      rw [toNat_wire_of_lt (by omega)] at this
      cases this
    refine ⟨hne, ?_⟩
    rw [blockIndex, if_neg (fun h => hne h.2), wire_sub_one, toNat_wire_of_lt (by omega)]

section

variable {srv : MulticastServer} {t : Tree} {r : TransferRun} {data : Bytes} {b : Nat}
  {positions : Set Nat}

theorem TransferRun.Progress.of_phase {phase : TransferPhase} (h : r.Progress data b positions)
    (hphase : r.task.phase = phase) :
    ({ r with task := { r.task with phase := phase } } : TransferRun).Progress data b
      positions := by
  subst hphase
  exact h

/-- A block of the round is done with. -/
theorem progress_nextResend {session : MulticastSession} {τ : TransferTask}
    {log : List MulticastRecord} {rest : List UInt16}
    (hblocks : ∀ n ∈ rest, ∃ k ∈ positions, n = wire (k + 1))
    (hall : ∀ k ∈ positions, wire (k + 1) ∈ rest ∨ segPacket b data k ∈ sentPackets log)
    (retry : Nat) :
    (⟨session, { τ with phase := nextResend retry rest }, log⟩ : TransferRun).Progress data b
      positions := by
  cases rest with
  | nil =>
      have hsent : ∀ k ∈ positions, segPacket b data k ∈ sentPackets log := by
        intro k hk
        simpa using hall k hk
      by_cases hnext : retry + 1 < maxRetransmissions
      · simp only [nextResend, if_pos hnext]
        exact hsent
      · simp only [nextResend, if_neg hnext]
        exact hsent
  | cons n rest => exact ⟨hblocks, hall⟩

/-- A round begins with the blocks of the queue, and a later one with none. -/
theorem progress_roundStart {session session' : MulticastSession} {τ : TransferTask}
    {log log' : List MulticastRecord} {retry : Nat} {blocks : List UInt16}
    (hold : (⟨session, { τ with phase := .roundStart retry }, log⟩ : TransferRun).Progress data b
      positions)
    (hblocks : ∀ n, n ∈ blocks ↔ n ∈ session.retransmitQueue)
    (hlater : retry ≠ 0 → blocks = []) (hlog : sentPackets log' = sentPackets log) :
    (⟨session', { τ with phase := if blocks = [] then .ended else .resending retry blocks },
      log'⟩ : TransferRun).Progress data b positions := by
  cases retry with
  | zero =>
      have hqueued : ∀ n, n ∈ blocks ↔ ∃ k ∈ positions, n = wire (k + 1) := by
        intro n
        rw [hblocks]
        exact hold n
      by_cases hnil : blocks = []
      · simp only [if_pos hnil]
        intro k hk
        have hmem := (hqueued (wire (k + 1))).mpr ⟨k, hk, rfl⟩
        rw [hnil] at hmem
        cases hmem
      · simp only [if_neg hnil]
        exact ⟨fun n hn => (hqueued n).mp hn, fun k hk => Or.inl ((hqueued _).mpr ⟨k, hk, rfl⟩)⟩
  | succ retry =>
      simp only [if_pos (hlater (Nat.succ_ne_zero retry))]
      intro k hk
      show _ ∈ sentPackets log'
      rw [hlog]
      exact hold k hk

/-- The packet of a block that is near enough is that of its position. -/
theorem dataPacket_near (data : Bytes) (b : Nat) {k : Nat} (hk : k < 65535) :
    dataPacket (wire (k + 1)) ((data.drop ((wire (k + 1) - 1).toNat * b)).take b)
      = segPacket b data k := by
  rw [wire_sub_one, toNat_wire_of_lt (Nat.lt_succ_of_lt hk)]
  rfl

/-- Once the block of position `k` is sent, it may leave the round: no other position that is
near enough has its number. -/
theorem mem_resent {rest : List UInt16} {log : List MulticastRecord} {key : String}
    {addr : SocketAddr} {j k : Nat} (hj : j < 65535) (hk : k < 65535)
    (h : wire (j + 1) ∈ wire (k + 1) :: rest ∨ segPacket b data j ∈ sentPackets log) :
    wire (j + 1) ∈ rest ∨
      segPacket b data j ∈ sentPackets (log ++ [.data key addr (segPacket b data k)]) := by
  rw [sentPackets_append, List.mem_append, sentPackets_data, List.mem_singleton]
  rcases h with hnum | hsent
  · rcases List.mem_cons.mp hnum with hnum | hnum
    · have hsucc : j + 1 = k + 1 := (wire_inj (by omega) (by omega)).mp hnum
      obtain rfl : j = k := Nat.succ.inj hsucc
      exact Or.inr (Or.inr rfl)
    · exact Or.inl hnum
  · exact Or.inr (Or.inl hsent)

theorem TransferRun.Resending.turn (h : r.Resending data b positions)
    (hnear : ∀ k ∈ positions, k < 65535) (hin : ∀ k ∈ positions, k * b < data.length)
    (hb : b ≤ maxBlockSize) {e : TransferEvent} (he : e.KeepsQueue) :
    (srv.turn t r e).Resending data b positions := by
  have hdrained : (srv.turn t r e).Drained := h.drained.turn he
  obtain ⟨hdata, hsize, hempty, hpackets, hprogress⟩ := h
  cases e with
  | call c =>
      refine ⟨hdata, (r.session.call_frame c).2.2.1 ▸ hsize, hdrained, hpackets, ?_⟩
      unfold Progress at hprogress ⊢
      simp only [MulticastServer.turn, MulticastSession.retransmitQueue_call _ he]
      exact hprogress
  | io io =>
      obtain ⟨session, τ, log⟩ := r
      have hmove := @MulticastServer.transferStep_move srv t session τ io
      have hframe := (@MulticastServer.turn_frame srv t ⟨session, τ, log⟩ (.io io)).2.2.1
      rw [MulticastServer.turn] at hdrained hframe ⊢
      generalize srv.transferStep t session τ io = next at hmove hdrained hframe ⊢
      simp only at hdata hsize hpackets hdrained hframe ⊢
      subst hdata hsize
      cases hmove with
      | idle =>
          rw [List.append_nil] at hdrained ⊢
          exact ⟨rfl, hframe ▸ rfl, hdrained, hpackets, hprogress⟩
      | fails =>
          rw [List.append_nil] at hdrained ⊢
          exact ⟨rfl, rfl, hdrained, hpackets, trivial⟩
      | opens hphase | sends hphase | acked hphase | elapses hphase =>
          exact (hempty.of_phase hphase).elim
      | @begins retry hphase timeoutSecs now clientOrder queueOrder blocks hblocks =>
          have hlog : sentPackets (log ++ (session.inactiveClients clientOrder timeoutSecs now).map
              (.removed τ.key)) = sentPackets log := by
            rw [sentPackets_append, sentPackets_removed, List.append_nil]
          have hmem : ∀ n, n ∈ blocks ↔ n ∈ session.retransmitQueue := by
            intro n
            rw [hblocks, (queueOrder.perm _).map _ |>.mem_iff]
            rfl
          have hdry := hempty.of_phase hphase
          have hlater : retry ≠ 0 → blocks = [] := by
            intro hretry
            cases retry with
            | zero => exact absurd rfl hretry
            | succ retry =>
                rw [hblocks, List.map_eq_nil_iff, Order.iter_eq_nil]
                exact hdry
          exact ⟨rfl, congrArg _ hframe, hdrained, hlog ▸ hpackets,
            progress_roundStart (hprogress.of_phase hphase) hmem hlater hlog⟩
      | @skips retry blockNum rest hphase hpast =>
          -- every queued block lies inside the file
          obtain ⟨hblocks, -⟩ := hprogress.of_phase hphase
          obtain ⟨k, hk, rfl⟩ := hblocks blockNum List.mem_cons_self
          rw [wire_sub_one, toNat_wire_of_lt (Nat.lt_succ_of_lt (hnear k hk))] at hpast
          have hlt : k * session.options.blockSize < 2 ^ 64 := by
            calc k * session.options.blockSize ≤ 65535 * maxBlockSize :=
                  Nat.mul_le_mul (Nat.le_of_lt (hnear k hk)) hb
              _ < 2 ^ 64 := by decide
          have := hin k hk
          omega
      | @resends retry blockNum rest hphase hinside =>
          obtain ⟨hblocks, hall⟩ := hprogress.of_phase hphase
          obtain ⟨k, hk, rfl⟩ := hblocks blockNum List.mem_cons_self
          rw [dataPacket_near τ.fileData _ (hnear k hk)] at hdrained ⊢
          refine ⟨rfl, rfl, hdrained, ?_, ?_⟩
          · intro packet hpacket
            rw [sentPackets_append, List.mem_append, sentPackets_data, List.mem_singleton]
              at hpacket
            rcases hpacket with hpacket | rfl
            · exact hpackets packet hpacket
            · exact ⟨k, hk, rfl⟩
          · refine progress_nextResend (fun n hn => hblocks n (List.mem_cons_of_mem _ hn)) ?_ retry
            intro j hj
            exact mem_resent (hnear j hj) (hnear k hk) (hall j hj)

theorem TransferRun.runTransfer_resending (h : r.Resending data b positions)
    (hnear : ∀ k ∈ positions, k < 65535) (hin : ∀ k ∈ positions, k * b < data.length)
    (hb : b ≤ maxBlockSize) {events : List TransferEvent} (hquiet : ∀ e ∈ events, e.KeepsQueue) :
    (srv.runTransfer t r events).Resending data b positions := by
  induction events generalizing r with
  | nil => exact h
  | cons e events ih =>
      exact ih (h.turn hnear hin hb (hquiet e List.mem_cons_self))
        fun e' he' => hquiet e' (List.mem_cons_of_mem _ he')

end

/-- **Retransmitted blocks** are the original blocks exactly where those that have been queued are
among the first 65535 of the file. -/
theorem resendsOriginals_iff (srv : MulticastServer) (t : Tree) (key : String) (data : Bytes)
    (session : MulticastSession) (positions : Set Nat) (events : List TransferEvent)
    (hin : ∀ k ∈ positions, k * session.options.blockSize < data.length)
    (hqueue : ∀ n, n ∈ session.retransmitQueue ↔ ∃ k ∈ positions, n = wire (k + 1))
    (hb : session.options.blockSize ≤ maxBlockSize) (hquiet : ∀ e ∈ events, e.KeepsQueue) :
    (srv.runTransfer t (.retransmitting key data session) events).ResendsOriginals srv data
        session.options.blockSize positions ↔
      ∀ k ∈ positions, k < 65535 := by
  constructor
  · intro h k hk
    exact srv.blockIndex_wire.mp (h.offsets k hk)
  · intro hnear
    have hstart : (TransferRun.retransmitting key data session).Resending data
        session.options.blockSize positions :=
      ⟨rfl, rfl, trivial, fun packet h => (List.not_mem_nil h).elim, hqueue⟩
    have hend : (srv.runTransfer t (.retransmitting key data session) events).Resending data
        session.options.blockSize positions :=
      TransferRun.runTransfer_resending hstart hnear hin hb hquiet
    refine ⟨fun k hk => srv.blockIndex_wire.mpr (hnear k hk), hend.packets, fun hphase => ?_⟩
    exact hend.progress.of_phase hphase

/-- One client, and one block to be sent again. -/
def oneQueued (n : UInt16) : MulticastSession :=
  let session : MulticastSession := .new (Path.ofString "/srv/tftp/a") .octet { blockSize := 8 }
    (.v4 0xe0000101) 1758 10
  (session.call (.addClient ⟨.v4 1, 2000⟩ 0)).queueRetransmit n

theorem mem_oneQueued {n m : UInt16} : m ∈ (oneQueued n).retransmitQueue ↔ m = n := by
  show m ∈ AList.insert n () (∅ : KeySet UInt16) ↔ m = n
  rw [AList.mem_insert]
  simp

/-- A round of a transfer that finds all clients active, and one block of it. -/
def oneResend : List TransferEvent :=
  [.io (.round 0 (.newest _ _) (.newest _ _)), .io (.sent true)]

theorem resendsOriginals_iff_first :
    (plainServer.runTransfer twoFileTree (.retransmitting "a:Octet" [97] (oneQueued 1))
        oneResend).ResendsOriginals plainServer [97] 8 {0} ↔
      ∀ k ∈ ({0} : Set Nat), k < 65535 :=
  resendsOriginals_iff plainServer twoFileTree "a:Octet" [97] (oneQueued 1) {0} oneResend
    (by simp) (fun n => by simp [mem_oneQueued, wire_one]) (by decide)
    (by simp [oneResend, TransferEvent.KeepsQueue])

theorem sentPackets_oneResend {data : Bytes} (h : data ≠ []) :
    sentPackets (plainServer.runTransfer twoFileTree
        (.retransmitting "a:Octet" data (oneQueued 1)) oneResend).log
      = [dataPacket 1 (data.take 8)] := by
  have hpos : 0 < data.length := List.length_pos_iff.mpr h
  have hround : plainServer.turn twoFileTree (.retransmitting "a:Octet" data (oneQueued 1))
      (.io (.round 0 (.newest _ _) (.newest _ _)))
      = ⟨{ oneQueued 1 with retransmitQueue := ∅ }, ⟨"a:Octet", data, .resending 0 [1]⟩, []⟩ := rfl
  have hin : ¬(0 ≥ 2 ^ 64 ∨ 0 ≥ data.length) := by omega
  have hresend : plainServer.resend { oneQueued 1 with retransmitQueue := ∅ }
      ⟨"a:Octet", data, .resending 0 [1]⟩ 0 1 [] true
      = (.roundStart 1, [.data "a:Octet" (oneQueued 1).group (dataPacket 1 (data.take 8))]) :=
    if_neg hin
  simp only [MulticastServer.runTransfer, oneResend, List.foldl_cons, List.foldl_nil, hround]
  simp only [MulticastServer.turn, MulticastServer.transferStep, hresend, List.nil_append]
  rfl

/-- A file of 65537 blocks of eight bytes, the last of which has a single byte. -/
def longData : Bytes := List.replicate (65536 * 8) 0 ++ [1]

/-- **Another block is sent.** The last block of the file has the number of its first one, and is
the one that has been queued; the first one is sent again. -/
theorem wrapped_block_misread :
    let r := plainServer.runTransfer twoFileTree
      (.retransmitting "a:Octet" longData (oneQueued 1)) oneResend
    segPacket 8 longData 65536 = dataPacket 1 [1] ∧
      sentPackets r.log = [dataPacket 1 [0, 0, 0, 0, 0, 0, 0, 0]] ∧
      ¬r.ResendsOriginals plainServer longData 8 {65536} := by
  have hlen : (List.replicate (65536 * 8) (0 : UInt8)).length = 65536 * 8 :=
    List.length_replicate
  refine ⟨?_, ?_, ?_⟩
  · have hblock : block 8 longData 65536 = [1] := by
      rw [block, longData, List.drop_left' hlen]
      rfl
    rw [segPacket, hblock]
    rfl
  · have htake : longData.take 8 = [0, 0, 0, 0, 0, 0, 0, 0] := by
      rw [longData, List.take_append_of_le_length (by rw [hlen]; decide), List.take_replicate]
      rfl
    have hne : longData ≠ [] := List.append_ne_nil_of_right_ne_nil _ (List.cons_ne_nil _ _)
    rw [sentPackets_oneResend hne, htake]
  · intro h
    have hfar : (65536 : Nat) < 65535 := plainServer.blockIndex_wire.mp (h.offsets 65536 rfl)
    exact absurd hfar (by decide)

/-! ## Later rounds -/

/-- Some client has not acknowledged this block. -/
def MulticastSession.Missing (session : MulticastSession) (n : UInt16) : Prop :=
  ∃ a c, session.clients.lookup a = some c ∧ c.hasAcked n = false

/-- The block lies inside the file, so that a round sends it. -/
def MulticastServer.InFile (srv : MulticastServer) (r : TransferRun) (n : UInt16) : Prop :=
  ∃ i, srv.blockIndex n = some i ∧ i * r.session.options.blockSize < 2 ^ 64 ∧
    i * r.session.options.blockSize < r.task.fileData.length

/-- A round after the first has each of the queued blocks that a remaining client still waits
for, and a block is sent only if some client waits for it. -/
structure MulticastServer.Retransmits (srv : MulticastServer) (t : Tree) (queued : KeySet UInt16)
    (r : TransferRun) (e : TransferEvent) : Prop where
  again : ∀ {retry now clientOrder queueOrder}, r.task.phase = .roundStart (retry + 1) →
    e = .io (.round now clientOrder queueOrder) → srv.clientTimeout ≠ none →
    ∀ n ∈ queued, (srv.turn t r e).session.Missing n →
      ∃ blocks, (srv.turn t r e).task.phase = .resending (retry + 1) blocks ∧ n ∈ blocks
  needed : ∀ {retry n rest}, r.task.phase = .resending retry (n :: rest) →
    e = .io (.sent true) → sentPackets (srv.turn t r e).log ≠ sentPackets r.log →
    r.session.Missing n

/-- Where a round after the first begins, all remaining clients have acknowledged all queued
blocks, and where the turn of a block comes, some client has not acknowledged it. -/
structure MulticastServer.Acknowledged (srv : MulticastServer) (queued : KeySet UInt16)
    (r : TransferRun) (e : TransferEvent) : Prop where
  all : ∀ {retry now clientOrder queueOrder timeoutSecs},
    r.task.phase = .roundStart (retry + 1) → e = .io (.round now clientOrder queueOrder) →
    srv.clientTimeout = some timeoutSecs → ∀ n ∈ queued,
      ¬(r.session.removeInactiveClients clientOrder timeoutSecs now).Missing n
  missing : ∀ {retry n rest}, r.task.phase = .resending retry (n :: rest) →
    e = .io (.sent true) → srv.InFile r n → r.session.Missing n

section

variable {srv : MulticastServer} {t : Tree} {r : TransferRun} {retry : Nat}

/-- A later round finds the queue empty, and is the last one. -/
theorem MulticastServer.turn_round (h : r.Drained)
    (hphase : r.task.phase = .roundStart (retry + 1)) {timeoutSecs : UInt64}
    (htimeout : srv.clientTimeout = some timeoutSecs) (now : Nat)
    (clientOrder : Order SocketAddr ClientState) (queueOrder : Order UInt16 Unit) :
    (srv.turn t r (.io (.round now clientOrder queueOrder))).task.phase = .ended ∧
      (srv.turn t r (.io (.round now clientOrder queueOrder))).session.clients
        = (r.session.removeInactiveClients clientOrder timeoutSecs now).clients := by
  have hempty : size r.session.retransmitQueue = 0 := h.of_phase hphase
  have hnil : (queueOrder.iter (r.session.removeInactiveClients clientOrder timeoutSecs
      now).retransmitQueue).map (·.1) = [] := by
    rw [List.map_eq_nil_iff, Order.iter_eq_nil,
      MulticastSession.retransmitQueue_removeInactiveClients]
    exact hempty
  simp only [turn, transferStep, hphase, htimeout, MulticastSession.takeRetransmitQueue, hnil,
    if_true, and_self]

theorem MulticastServer.sentPackets_turn {n : UInt16} {rest : List UInt16}
    (hphase : r.task.phase = .resending retry (n :: rest)) :
    sentPackets (srv.turn t r (.io (.sent true))).log ≠ sentPackets r.log ↔ srv.InFile r n := by
  have hlog : (srv.turn t r (.io (.sent true))).log
      = r.log ++ (srv.resend r.session r.task retry n rest true).2 := by
    simp only [turn, transferStep, hphase]
  rw [hlog, sentPackets_append, Ne, List.append_right_eq_self, InFile, resend]
  cases hindex : srv.blockIndex n with
  | none => simp
  | some i =>
      by_cases hpast : i * r.session.options.blockSize ≥ 2 ^ 64 ∨
          i * r.session.options.blockSize ≥ r.task.fileData.length
      · simp only [if_pos hpast, sentPackets_nil, not_true, false_iff]
        rintro ⟨j, hj, hoffset, hinside⟩
        cases hj
        omega
      · simp only [if_neg hpast, if_true, sentPackets_data]
        refine iff_of_true (List.cons_ne_nil _ _) ⟨i, rfl, ?_, ?_⟩ <;> omega

theorem MulticastServer.retransmits_iff (h : r.Drained) (queued : KeySet UInt16)
    (e : TransferEvent) : srv.Retransmits t queued r e ↔ srv.Acknowledged queued r e := by
  constructor
  · rintro ⟨hagain, hneeded⟩
    refine ⟨?_, ?_⟩
    · rintro retry now clientOrder queueOrder timeoutSecs hphase rfl htimeout n hn ⟨a, c, hc, hmiss⟩
      obtain ⟨hended, hclients⟩ := srv.turn_round (t := t) h hphase htimeout now
        clientOrder queueOrder
      obtain ⟨blocks, hblocks, -⟩ := hagain hphase rfl (by rw [htimeout]; simp) n hn
        ⟨a, c, by rw [hclients]; exact hc, hmiss⟩
      rw [hended] at hblocks
      cases hblocks
    · rintro retry n rest hphase rfl hin
      exact hneeded hphase rfl ((sentPackets_turn hphase).mpr hin)
  · rintro ⟨hall, hmissing⟩
    refine ⟨?_, ?_⟩
    · rintro retry now clientOrder queueOrder hphase rfl htimeout n hn ⟨a, c, hc, hmiss⟩
      obtain ⟨timeoutSecs, htimeout⟩ := Option.ne_none_iff_exists'.mp htimeout
      obtain ⟨-, hclients⟩ := srv.turn_round (t := t) h hphase htimeout now
        clientOrder queueOrder
      rw [hclients] at hc
      exact absurd ⟨a, c, hc, hmiss⟩ (hall hphase rfl htimeout n hn)
    · rintro retry n rest hphase rfl hsent
      exact hmissing hphase rfl ((sentPackets_turn hphase).mp hsent)

end

/-- **Later rounds** send what is still missing, and nothing is sent that is not, exactly in the
runs in which nothing is missing when a later round begins, and each block still is when its turn
comes. -/
theorem rounds_retransmit_iff (srv : MulticastServer) (t : Tree) (key : String) (data : Bytes)
    (session : MulticastSession) (events : List TransferEvent)
    (hquiet : ∀ e ∈ events, e.KeepsQueue) :
    Along (srv.turn t) (srv.Retransmits t session.retransmitQueue)
        (.retransmitting key data session) events ↔
      Along (srv.turn t) (srv.Acknowledged session.retransmitQueue)
        (.retransmitting key data session) events := by
  have hdrained : Along (srv.turn t) (fun r _ => r.Drained) (.retransmitting key data session)
      events :=
    along_of_invariant (fun r e hr he => ⟨hr.turn he, hr⟩) events _ trivial
      (along_of_forall_mem _ hquiet)
  exact along_congr (fun r e hr => MulticastServer.retransmits_iff hr _ e) events _ hdrained

def quietTurn : TransferEvent := .io (.round 0 (.newest _ _) (.newest _ _))

/-- The client has acknowledged the block when the second round begins. -/
theorem rounds_retransmit_iff_acknowledged :
    Along (plainServer.turn twoFileTree)
        (plainServer.Retransmits twoFileTree (oneQueued 1).retransmitQueue)
        (.retransmitting "a:Octet" [97] (oneQueued 1))
        (oneResend ++ [.call (.recordAck ⟨.v4 1, 2000⟩ 1 0), quietTurn]) ↔
      Along (plainServer.turn twoFileTree)
        (plainServer.Acknowledged (oneQueued 1).retransmitQueue)
        (.retransmitting "a:Octet" [97] (oneQueued 1))
        (oneResend ++ [.call (.recordAck ⟨.v4 1, 2000⟩ 1 0), quietTurn]) :=
  rounds_retransmit_iff plainServer twoFileTree "a:Octet" [97] (oneQueued 1) _
    (by simp [oneResend, quietTurn, TransferEvent.KeepsQueue,
      MulticastSession.Call.KeepsQueue])

/-- **A block is given up.** The client has not acknowledged it when the second round begins, and
the transfer ends there. -/
theorem missing_block_forgotten :
    let r := plainServer.runTransfer twoFileTree (.retransmitting "a:Octet" [97] (oneQueued 1))
      (oneResend ++ [quietTurn])
    r.task.phase = .ended ∧ r.session.Missing 1 ∧
      ¬Along (plainServer.turn twoFileTree)
        (plainServer.Retransmits twoFileTree (oneQueued 1).retransmitQueue)
        (.retransmitting "a:Octet" [97] (oneQueued 1)) (oneResend ++ [quietTurn]) := by
  intro r
  have hended : r.task.phase = .ended := by decide +kernel
  have hmissing : r.session.Missing 1 := by
    refine ⟨⟨.v4 1, 2000⟩, .new ⟨.v4 1, 2000⟩ true 0, ?_, rfl⟩
    rfl
  refine ⟨hended, hmissing, fun h => ?_⟩
  have hround := h.2.2.1
  obtain ⟨blocks, hblocks, -⟩ := hround.again rfl rfl (by decide) 1 (mem_oneQueued.mpr rfl) hmissing
  exact absurd (hended.symm.trans hblocks) (by simp)

end UsgTftp
