import UsgTftp.Multicast.Server

set_option autoImplicit false

/-! # Acknowledgements of multicast blocks

A transfer waits after each block until all clients have acknowledged it or the time is up.
Nothing reads the sockets that the acknowledgements arrive at and nothing calls `record_ack`,
so that no client ever counts as having acknowledged a block: every block is waited for until
the time is up, and is then queued to be sent again (`block_passed_only_by_timeout`).

The file also has the invariant on which the results about transfers rest (`WellFormed`).
-/

namespace UsgTftp

open HashTable SeqNum Segment

/-! ## Sessions without acknowledgements -/

/-- No client counts as having acknowledged anything. -/
def MulticastSession.Unacked (session : MulticastSession) : Prop :=
  ∀ a c, session.clients.lookup a = some c → ∀ n, n ∉ c.ackedBlocks

namespace MulticastSession

theorem unacked_new (filePath : Posix.Path) (mode : TransferMode) (options : TftpOptions)
    (multicastAddr : IpAddr) (multicastPort : UInt16) (maxClients : UInt64) :
    (new filePath mode options multicastAddr multicastPort maxClients).Unacked := by
  intro a c hc
  simp [new] at hc

theorem Unacked.addClient {session session' : MulticastSession} {addr : SocketAddr} {now : Nat}
    {b : Bool} (h : session.Unacked) (hadd : session.addClient addr now = .ok (session', b)) :
    session'.Unacked := by
  obtain ⟨-, -, rfl⟩ := addClient_eq_ok.mp hadd
  intro a c hc n
  simp only [lookup_insert_eq] at hc
  split_ifs at hc
  · cases hc
    simp [ClientState.new]
  · exact h a c hc n

theorem Unacked.removeInactiveClients {session : MulticastSession} (h : session.Unacked)
    (order : Order SocketAddr ClientState) (timeoutSecs : UInt64) (now : Nat) :
    (session.removeInactiveClients order timeoutSecs now).Unacked := by
  intro a c hc n
  obtain ⟨c₀, h₀, hrole⟩ := lookup_removeClients hc
  rw [hrole]
  exact h a c₀ h₀ n

/-- The wait for acknowledgements does not end by itself, not even without clients. -/
theorem Unacked.allClientsAcked {session : MulticastSession} (h : session.Unacked) (n : UInt16) :
    session.allClientsAcked n = false := by
  unfold MulticastSession.allClientsAcked
  split
  · rfl
  · rename_i hne
    rw [List.all_eq_false]
    -- any client will do
    obtain ⟨e, hmem⟩ : ∃ e, e ∈ session.clients.entries := by
      cases hentries : session.clients.entries with
      | nil => simp [AList.keys, hentries] at hne
      | cons e es => exact ⟨e, List.mem_cons_self⟩
    have hwait := h e.1 e.2 (AList.mem_lookup_iff.mpr hmem) n
    exact ⟨e, hmem, by simpa [ClientState.hasAcked] using hwait⟩

theorem addClient_frame {session session' : MulticastSession} {addr : SocketAddr} {now : Nat}
    {b : Bool} (hadd : session.addClient addr now = .ok (session', b)) :
    session.SameTransfer session' ∧ session'.retransmitQueue = session.retransmitQueue := by
  obtain ⟨-, -, rfl⟩ := addClient_eq_ok.mp hadd
  exact ⟨.refl _, rfl⟩

end MulticastSession

/-! ## The invariant -/

/-- Where a transfer of `data` in blocks of `b` bytes stands. -/
def TransferTask.Placed (τ : TransferTask) (data : Bytes) (b : Nat) : Prop :=
  match τ.phase with
  | .sending offset blockNum | .waiting offset blockNum =>
      τ.fileData = data ∧ ∃ k, offset = k * b ∧ blockNum = wire (k + 1) ∧ offset < data.length
  | .roundStart retry => τ.fileData = data ∧ retry < maxRetransmissions
  | .resending retry blocks =>
      τ.fileData = data ∧ retry < maxRetransmissions ∧ blocks ≠ [] ∧ blocks.length ≤ 65536
  | _ => True

theorem size_le_65536 (queue : KeySet UInt16) : size queue ≤ 65536 :=
  size_le_of_injective (fun _ _ h => UInt16.toNat_inj.mp h) (fun n => n.toNat_lt) queue

section Placed

variable {τ : TransferTask} {data : Bytes} {b : Nat}

theorem placed_nextBlock (hdata : τ.fileData = data) (k : Nat) :
    ({ τ with phase := nextBlock data (k * b) (wire (k + 1)) } : TransferTask).Placed data b := by
  unfold nextBlock
  by_cases h : k * b < data.length
  · rw [if_pos h]
    exact ⟨hdata, k, rfl, rfl, h⟩
  · rw [if_neg h]
    exact ⟨hdata, by decide⟩

theorem placed_advanceBlock (hdata : τ.fileData = data) {k : Nat} :
    ({ τ with phase := advanceBlock τ.fileData b (k * b) (wire (k + 1)) } : TransferTask).Placed
      data b := by
  subst hdata
  unfold advanceBlock
  by_cases hlast : min b (τ.fileData.length - k * b) < b
  · simp only [if_pos hlast]
    exact ⟨rfl, by decide⟩
  · have hnext : k * b + min b (τ.fileData.length - k * b) = (k + 1) * b := by
      rw [Nat.add_mul]
      omega
    simp only [if_neg hlast, hnext, wire_add_one]
    exact placed_nextBlock rfl (k + 1)

theorem placed_nextResend (hdata : τ.fileData = data) {retry : Nat} {rest : List UInt16}
    (hretry : retry < maxRetransmissions) (hlen : rest.length ≤ 65536) :
    ({ τ with phase := nextResend retry rest } : TransferTask).Placed data b := by
  cases rest with
  | nil =>
      by_cases hnext : retry + 1 < maxRetransmissions
      · simp only [nextResend, if_pos hnext]
        exact ⟨hdata, hnext⟩
      · simp only [nextResend, if_neg hnext]
        trivial
  | cons n rest => exact ⟨hdata, hretry, by simp, hlen⟩

end Placed

section Moves

variable {srv : MulticastServer} {t : Posix.Tree} {session session' : MulticastSession}
  {τ τ' : TransferTask} {records : List MulticastRecord} {io : TransferIo}

/-- A step of a transfer leaves alone what its session is for. -/
theorem TransferMove.frame (h : TransferMove srv t session τ io (session', τ', records)) :
    session.SameTransfer session' ∧ τ'.key = τ.key := by
  cases h with
  | begins _ timeoutSecs now clientOrder =>
      exact ⟨MulticastSession.removeInactiveClients_frame timeoutSecs now, rfl⟩
  | _ => exact ⟨.refl _, rfl⟩

theorem TransferMove.unacked (h : TransferMove srv t session τ io (session', τ', records))
    (hun : session.Unacked) : session'.Unacked := by
  cases h with
  | begins _ timeoutSecs now clientOrder =>
      exact hun.removeInactiveClients clientOrder timeoutSecs now
  | _ => exact hun

theorem TransferTask.Placed.of_phase {data : Bytes} {b : Nat} {phase : TransferPhase}
    (h : τ.Placed data b) (hphase : τ.phase = phase) :
    ({ τ with phase := phase } : TransferTask).Placed data b := by
  subst hphase
  exact h

theorem TransferMove.placed (h : TransferMove srv t session τ io (session', τ', records))
    (hpl : τ.Placed (srv.sessionData t session) session.options.blockSize) :
    τ'.Placed (srv.sessionData t session) session.options.blockSize := by
  cases h with
  | idle => exact hpl
  | fails => trivial
  | opens =>
      have h := @placed_nextBlock { τ with fileData := srv.sessionData t session }
        (srv.sessionData t session) session.options.blockSize rfl 0
      rwa [Nat.zero_mul, wire_one] at h
  | sends hphase =>
      have h := hpl.of_phase hphase
      exact h
  | acked hphase | elapses hphase =>
      obtain ⟨hdata, k, rfl, rfl, -⟩ := hpl.of_phase hphase
      exact placed_advanceBlock hdata
  | @begins retry hphase timeoutSecs now clientOrder queueOrder blocks hblocks =>
      obtain ⟨hdata, hretry⟩ := hpl.of_phase hphase
      by_cases hnil : blocks = []
      · rw [if_pos hnil]
        trivial
      · rw [if_neg hnil]
        refine ⟨hdata, hretry, hnil, ?_⟩
        rw [hblocks, List.length_map, Order.length_iter]
        exact size_le_65536 _
  | skips hphase | resends hphase =>
      obtain ⟨hdata, hretry, -, hlen⟩ := hpl.of_phase hphase
      exact placed_nextResend hdata hretry (le_trans (Nat.le_succ _) hlen)

/-- The packet is one of the blocks that hold the data. -/
def DataBlock (data : Bytes) (b : Nat) (packet : Bytes) : Prop :=
  ∃ k, k * b < data.length ∧ packet = segPacket b data k

theorem wire_sub_one_toNat (blockNum : UInt16) : wire ((blockNum - 1).toNat + 1) = blockNum := by
  rw [← wire_add_one, wire_toNat, UInt16.sub_add_cancel]

/-- **What a transfer sends** is a block of the session's file, to the session's group. -/
theorem TransferMove.sends_block (h : TransferMove srv t session τ io (session', τ', records))
    (hpl : τ.Placed (srv.sessionData t session) session.options.blockSize) {key : String}
    {dest : SocketAddr} {packet : Bytes} (hrecord : .data key dest packet ∈ records) :
    key = τ.key ∧ dest = session.group ∧ τ.running = true ∧
      DataBlock (srv.sessionData t session) session.options.blockSize packet := by
  cases h with
  | idle | fails | opens | acked | elapses | skips => cases hrecord
  | begins =>
      obtain ⟨a, -, ha⟩ := List.mem_map.mp hrecord
      cases ha
  | sends hphase =>
      obtain ⟨hdata, k, rfl, rfl, hlt⟩ := hpl.of_phase hphase
      rw [List.mem_singleton] at hrecord
      cases hrecord
      simp only at hdata
      rw [hdata]
      exact ⟨rfl, rfl, running_of_phase hphase (by simp) (by simp), k, hlt, rfl⟩
  | @resends retry blockNum rest hphase hinside =>
      obtain ⟨hdata, -⟩ := hpl.of_phase hphase
      rw [List.mem_singleton] at hrecord
      cases hrecord
      simp only at hdata
      rw [hdata] at hinside ⊢
      refine ⟨rfl, rfl, running_of_phase hphase (by simp) (by simp), (blockNum - 1).toNat,
        hinside, ?_⟩
      rw [segPacket, wire_sub_one_toNat]
      rfl

theorem TransferMove.running (h : TransferMove srv t session τ io (session', τ', records))
    (hrun : τ'.running = true) : τ.running = true := by
  cases h with
  | idle => exact hrun
  | fails h => exact h
  | opens hphase | sends hphase | acked hphase | elapses hphase | begins hphase | skips hphase
  | resends hphase => exact running_of_phase hphase (by simp) (by simp)

theorem TransferMove.mem_clients (h : TransferMove srv t session τ io (session', τ', records))
    {a : SocketAddr} (ha : a ∈ session'.clients) : a ∈ session.clients := by
  cases h with
  | begins => exact (MulticastSession.mem_removeClients.mp ha).2
  | _ => exact ha

end Moves

/-- What holds of the server in every run. -/
structure MulticastState.WellFormed (srv : MulticastServer) (t : Posix.Tree) (s : MulticastState) :
    Prop where
  blockSize : ∀ key session, s.sessions.lookup key = some session →
    8 ≤ session.options.blockSize ∧ session.options.blockSize ≤ maxBlockSize
  unacked : ∀ key session, s.sessions.lookup key = some session → session.Unacked
  placed : ∀ τ ∈ s.transfers, ∃ session, s.sessions.lookup τ.key = some session ∧
    τ.Placed (srv.sessionData t session) session.options.blockSize

theorem MulticastSession.SameTransfer.sessionData {srv : MulticastServer} {t : Posix.Tree}
    {session session' : MulticastSession} (h : session.SameTransfer session') :
    srv.sessionData t session' = srv.sessionData t session := by
  obtain ⟨hpath, hmode, -⟩ := h
  simp only [MulticastServer.sessionData, MulticastSession.fileData, hpath, hmode]

namespace MulticastState

variable {srv : MulticastServer} {t : Posix.Tree} {s s' : MulticastState} {e : MulticastEvent}

/-- A session stays, and stays for the same transfer. -/
theorem session_of_move (h : ServerMove srv t s e s') {key : String} {session : MulticastSession}
    (hs : s.sessions.lookup key = some session) :
    ∃ session', s'.sessions.lookup key = some session' ∧ session.SameTransfer session' := by
  have hinsert : ∀ {key₁ : String} {session₁ session₂ : MulticastSession},
      s.sessions.lookup key₁ = some session₁ → session₁.SameTransfer session₂ →
      s'.sessions = s.sessions.insert key₁ session₂ →
      ∃ session', s'.sessions.lookup key = some session' ∧ session.SameTransfer session' := by
    intro key₁ session₁ session₂ h₁ hsame hsessions
    rw [hsessions, lookup_insert_eq]
    by_cases hkey : key = key₁
    · subst hkey
      rw [hs] at h₁
      cases h₁
      exact ⟨session₂, by simp, hsame⟩
    · exact ⟨session, by rw [if_neg hkey, hs], .refl _⟩
  cases h with
  | idle hsessions => exact ⟨session, by rw [hsessions, hs], .refl _⟩
  | @creates key₁ filePath r hnew hsessions =>
      have hkey : key ≠ key₁ := by
        rintro rfl
        rw [hs] at hnew
        cases hnew
      exact ⟨session, by rw [hsessions, AList.lookup_insert_ne hkey, hs], .refl _⟩
  | joins _ _ hsession hadd hsessions =>
      exact hinsert hsession (MulticastSession.addClient_frame hadd).1 hsessions
  | moves _ _ hsession hmove hsessions => exact hinsert hsession hmove.frame.1 hsessions

theorem wellFormed_start : ({} : MulticastState).WellFormed srv t where
  blockSize := fun key session h => by simp at h
  unacked := fun key session h => by simp at h
  placed := fun τ h => by simp at h

/-- A session after a step is new, or it is that of a client or a transfer that has moved. -/
theorem lookup_of_insert {key key₁ : String} {session session₁ : MulticastSession}
    (hsessions : s'.sessions = s.sessions.insert key₁ session₁)
    (h : s'.sessions.lookup key = some session) :
    session = session₁ ∨ s.sessions.lookup key = some session := by
  rw [hsessions, lookup_insert_eq] at h
  split_ifs at h
  · exact Or.inl (Option.some.inj h).symm
  · exact Or.inr h

theorem WellFormed.step (hs : s.WellFormed srv t) (h : ServerMove srv t s e s') :
    s'.WellFormed srv t := by
  -- a transfer that does not move is placed as before, as its session is for the same file
  have hkeep : ∀ τ ∈ s.transfers, ∃ session, s'.sessions.lookup τ.key = some session ∧
      τ.Placed (srv.sessionData t session) session.options.blockSize := by
    intro τ hτ
    obtain ⟨session, hsession, hpl⟩ := hs.placed τ hτ
    obtain ⟨session', hsession', hsame⟩ := session_of_move h hsession
    refine ⟨session', hsession', ?_⟩
    rwa [hsame.sessionData, hsame.2.2.1]
  cases h with
  | idle hsessions htransfers =>
      rw [← htransfers] at hkeep
      exact ⟨hsessions ▸ hs.blockSize, hsessions ▸ hs.unacked, hkeep⟩
  | @creates key₁ filePath r hnew hsessions htransfers =>
      rw [← htransfers] at hkeep
      refine ⟨fun key session h => ?_, fun key session h => ?_, hkeep⟩
      · rcases lookup_of_insert hsessions h with rfl | h
        · exact r.blockSize_range
        · exact hs.blockSize key session h
      · rcases lookup_of_insert hsessions h with rfl | h
        · exact MulticastSession.unacked_new _ _ _ _ _ _
        · exact hs.unacked key session h
  | @joins key₁ addr now sent j session₁ session₂ isMaster hevent hjoining hsession hadd hsessions
      htransfers =>
      have hsame := (MulticastSession.addClient_frame hadd).1
      refine ⟨fun key session h => ?_, fun key session h => ?_, fun τ hτ => ?_⟩
      · rcases lookup_of_insert hsessions h with rfl | h
        · rw [hsame.2.2.1]
          exact hs.blockSize key₁ session₁ hsession
        · exact hs.blockSize key session h
      · rcases lookup_of_insert hsessions h with rfl | h
        · exact (hs.unacked key₁ session₁ hsession).addClient hadd
        · exact hs.unacked key session h
      · rw [htransfers, List.mem_append] at hτ
        rcases hτ with hτ | hτ
        · exact hkeep τ hτ
        · -- the new transfer has read nothing yet
          split_ifs at hτ
          · rw [List.mem_singleton] at hτ
            subst hτ
            exact ⟨session₂, by rw [hsessions, AList.lookup_insert], trivial⟩
          · cases hτ
  | @moves i io τ₁ τ₂ session₁ session₂ records hevent hτ₁ hsession hmove hsessions htransfers =>
      obtain ⟨hsame, hkey⟩ := hmove.frame
      refine ⟨fun key session h => ?_, fun key session h => ?_, fun τ hτ => ?_⟩
      · rcases lookup_of_insert hsessions h with rfl | h
        · rw [hsame.2.2.1]
          exact hs.blockSize τ₁.key session₁ hsession
        · exact hs.blockSize key session h
      · rcases lookup_of_insert hsessions h with rfl | h
        · exact hmove.unacked (hs.unacked τ₁.key session₁ hsession)
        · exact hs.unacked key session h
      · rw [htransfers] at hτ
        rcases List.mem_or_eq_of_mem_set hτ with hτ | rfl
        · exact hkeep τ hτ
        · obtain ⟨session, hsession', hpl⟩ := hs.placed τ₁ (List.mem_of_getElem? hτ₁)
          rw [hsession] at hsession'
          cases hsession'
          refine ⟨session₂, by rw [hsessions, hkey, AList.lookup_insert], ?_⟩
          rw [hsame.sessionData, hsame.2.2.1]
          exact hmove.placed hpl

end MulticastState

theorem MulticastServer.run_wellFormed (srv : MulticastServer) (t : Posix.Tree)
    (events : List MulticastEvent) : (srv.run t events).WellFormed srv t :=
  run_invariant MulticastState.wellFormed_start (fun _ _ hs => hs.step step_move) events

/-! ## Acknowledgements do not count -/

/-- The transfer `i` waits after block `blockNum`. -/
def MulticastState.WaitsAt (s : MulticastState) (i : Nat) (key : String) (blockNum : UInt16) :
    Prop :=
  ∃ τ offset, s.transfers[i]? = some τ ∧ τ.key = key ∧ τ.phase = .waiting offset blockNum

/-- With this event the transfer goes on as all clients have acknowledged the block, which is
not to be sent again. -/
def MulticastServer.PassesAcked (srv : MulticastServer) (t : Posix.Tree) (s : MulticastState)
    (e : MulticastEvent) (key : String) (blockNum : UInt16) : Prop :=
  ∃ session session', s.sessions.lookup key = some session ∧
    (srv.step t s e).sessions.lookup key = some session' ∧
    session.allClientsAcked blockNum = true ∧ blockNum ∉ session'.retransmitQueue

/-- The ACK of every client of the session has reached the socket that sent the client's OACK,
or the socket of the transfer. -/
def MulticastState.AcksArrived (s : MulticastState) (i : Nat) (key : String) (blockNum : UInt16) :
    Prop :=
  ∃ session, s.sessions.lookup key = some session ∧ ∀ a ∈ session.clients,
    (.response a, a, ackPacket blockNum) ∈ s.received ∨
      (.transfer i, a, ackPacket blockNum) ∈ s.received

/-- The one way for a transfer to stop waiting. -/
theorem elapses_of_not_waitsAt {srv : MulticastServer} {t : Posix.Tree} {s : MulticastState}
    (hs : s.WellFormed srv t) {e : MulticastEvent} {i : Nat} {key : String} {blockNum : UInt16}
    (hwait : s.WaitsAt i key blockNum) (hgo : ¬(srv.step t s e).WaitsAt i key blockNum) :
    ∃ session, (srv.step t s e).sessions.lookup key = some session ∧
      blockNum ∈ session.retransmitQueue := by
  obtain ⟨τ, offset, hτ, hkey, hphase⟩ := hwait
  -- as long as the transfer stays as it is, it waits
  have hstay : (srv.step t s e).transfers[i]? ≠ some τ := fun h => hgo ⟨τ, offset, h, hkey, hphase⟩
  have hmove : ServerMove srv t s e (srv.step t s e) := MulticastServer.step_move
  generalize srv.step t s e = s' at hmove hstay ⊢
  cases hmove with
  | idle _ htransfers => exact absurd (htransfers ▸ hτ) hstay
  | creates _ _ htransfers => exact absurd (htransfers ▸ hτ) hstay
  | joins _ _ _ _ _ htransfers =>
      refine absurd ?_ hstay
      rw [htransfers, List.getElem?_append_left (List.getElem?_eq_some_iff.mp hτ).1, hτ]
  | @moves i' io τ₁ τ₂ session₁ session₂ records hevent hτ₁ hsession hmove hsessions htransfers =>
      by_cases hi : i' = i
      · subst hi
        rw [hτ] at hτ₁
        cases hτ₁
        have hset : s'.transfers[i']? = some τ₂ := by
          rw [htransfers, List.getElem?_set_self (List.getElem?_eq_some_iff.mp hτ).1]
        rw [hset] at hstay
        subst hkey
        cases hmove with
        | idle => exact absurd rfl hstay
        | fails _ h => simp [MulticastServer.succeeds, hphase] at h
        | acked _ hacked =>
            rw [(hs.unacked _ _ hsession).allClientsAcked] at hacked
            cases hacked
        | elapses hphase' =>
            rw [hphase] at hphase'
            cases hphase'
            refine ⟨_, by rw [hsessions, AList.lookup_insert], ?_⟩
            rw [MulticastSession.queueRetransmit, AList.mem_insert]
            exact Or.inl rfl
        | opens h | sends h | begins h | skips h | resends h =>
            rw [hphase] at h
            cases h
      · refine absurd ?_ hstay
        rw [htransfers, List.getElem?_set_ne hi, hτ]

/-- **Blocks are passed by timeout only.** In every run, whatever acknowledgements have reached
the sockets of the server, a transfer that goes on after a block does not do so as all clients
have acknowledged it, and the block is queued to be sent again. -/
theorem block_passed_only_by_timeout (srv : MulticastServer) (t : Posix.Tree)
    (events : List MulticastEvent) (e : MulticastEvent) (i : Nat) (key : String)
    (blockNum : UInt16) (hwait : (srv.run t events).WaitsAt i key blockNum)
    (hgo : ¬(srv.run t (events ++ [e])).WaitsAt i key blockNum) :
    ¬srv.PassesAcked t (srv.run t events) e key blockNum ∧
      ∃ session, (srv.run t (events ++ [e])).sessions.lookup key = some session ∧
        blockNum ∈ session.retransmitQueue := by
  have hs := srv.run_wellFormed t events
  rw [MulticastServer.run_append] at hgo ⊢
  refine ⟨?_, elapses_of_not_waitsAt hs hwait hgo⟩
  rintro ⟨session, _, hsession, -, hacked, -⟩
  rw [(hs.unacked key session hsession).allClientsAcked] at hacked
  cases hacked

/-- One client receives `a`, whose ACK arrives at both sockets. -/
def ackedRun : List MulticastEvent :=
  joinEvents "a" 1 ++ [.transfer 0 (.opened true), .transfer 0 (.sent true),
    .datagram (.response ⟨.v4 1, 2000⟩) ⟨.v4 1, 2000⟩ (ackPacket 1),
    .datagram (.transfer 0) ⟨.v4 1, 2000⟩ (ackPacket 1)]

theorem ackedRun_waitsAt : (plainServer.run twoFileTree ackedRun).WaitsAt 0 "a:Octet" 1 :=
  ⟨⟨"a:Octet", [97], .waiting 0 1⟩, 0, by decide +kernel, rfl, rfl⟩

theorem ackedRun_goes_on : ¬(plainServer.run twoFileTree
    (ackedRun ++ [.transfer 0 .elapsed])).WaitsAt 0 "a:Octet" 1 := by
  rintro ⟨τ, offset, hτ, -, hphase⟩
  have hlast : (plainServer.run twoFileTree (ackedRun ++ [.transfer 0 .elapsed])).transfers[0]?
      = some ⟨"a:Octet", [97], .roundStart 0⟩ := by decide +kernel
  rw [hlast] at hτ
  cases hτ
  cases hphase

/-- The block is queued although its ACK has arrived. -/
theorem block_passed_only_by_timeout_acked :
    ∃ session, (plainServer.run twoFileTree
      (ackedRun ++ [.transfer 0 .elapsed])).sessions.lookup "a:Octet" = some session ∧
        1 ∈ session.retransmitQueue :=
  (block_passed_only_by_timeout _ _ _ _ _ _ _ ackedRun_waitsAt ackedRun_goes_on).2

/-- The ACK of the only client has arrived, and the transfer does not go on because of it. -/
theorem arrived_acks_not_counted :
    (plainServer.run twoFileTree ackedRun).AcksArrived 0 "a:Octet" 1 ∧
      (plainServer.run twoFileTree ackedRun).WaitsAt 0 "a:Octet" 1 ∧
      (plainServer.run twoFileTree (ackedRun ++ [.transfer 0 .polled])).WaitsAt 0 "a:Octet" 1 ∧
      ¬(plainServer.run twoFileTree (ackedRun ++ [.transfer 0 .elapsed])).WaitsAt 0 "a:Octet" 1 ∧
      ∃ session, (plainServer.run twoFileTree
        (ackedRun ++ [.transfer 0 .elapsed])).sessions.lookup "a:Octet" = some session ∧
          1 ∈ session.retransmitQueue := by
  have hclients : ∃ session, (plainServer.run twoFileTree ackedRun).sessions.lookup "a:Octet"
      = some session ∧ session.clients.keys = [⟨.v4 1, 2000⟩] := by
    cases h : (plainServer.run twoFileTree ackedRun).sessions.lookup "a:Octet" with
    | none =>
        have : ((plainServer.run twoFileTree ackedRun).sessions.lookup "a:Octet").isSome
            = true := by
          decide +kernel
        rw [h] at this
        cases this
    | some session =>
        have hkeys : ((plainServer.run twoFileTree ackedRun).sessions.lookup "a:Octet").map
            (·.clients.keys) = some [⟨.v4 1, 2000⟩] := by decide +kernel
        rw [h] at hkeys
        exact ⟨session, rfl, Option.some.inj hkeys⟩
  obtain ⟨session, hsession, hkeys⟩ := hclients
  refine ⟨⟨session, hsession, fun a ha => ?_⟩, ackedRun_waitsAt,
    ⟨⟨"a:Octet", [97], .waiting 0 1⟩, 0, by decide +kernel, rfl, rfl⟩, ackedRun_goes_on, ?_⟩
  · rw [AList.mem_keys, hkeys, List.mem_singleton] at ha
    subst ha
    exact Or.inl (by decide +kernel)
  · exact elapses_of_not_waitsAt (plainServer.run_wellFormed twoFileTree ackedRun) ackedRun_waitsAt
      (by rw [← MulticastServer.run_append]; exact ackedRun_goes_on)

end UsgTftp
