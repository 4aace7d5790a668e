import UsgTftp.Multicast.Acks

set_option autoImplicit false

/-! # Every client of a multicast session is served

A transfer sends each block once, and again those that it finds queued. A client that joins
late is sent the blocks that are still to come, and the earlier ones only as long as they are
queued or being sent again; when the transfer is over, nothing is sent to it at all, for the
session stays and only a client that finds it empty starts a transfer
(`late_client_forgotten`).

`every_client_served` has the condition under which all clients get the whole file: each finds
its session empty or all blocks still to be sent, and no call of a transfer fails.
-/

namespace UsgTftp

open HashTable SeqNum Segment Reactive

/-! ## Blocks that are still to be sent -/

/-- Block `k` is on the way of this transfer: its main loop or its round comes to it. -/
def TransferTask.Plans (τ : TransferTask) (b k : Nat) : Prop :=
  match τ.phase with
  | .spawned => True
  | .sending offset _ => offset ≤ k * b
  | .waiting offset blockNum => offset < k * b ∨ k < 65536 ∧ blockNum = wire (k + 1)
  | .resending _ blocks => k < 65536 ∧ wire (k + 1) ∈ blocks
  | _ => False

/-- The transfer will look at the queue once more. -/
def TransferTask.TakesQueue (τ : TransferTask) : Prop :=
  match τ.phase with
  | .spawned | .sending _ _ | .waiting _ _ | .roundStart _ => True
  | .resending retry _ => retry + 1 < maxRetransmissions
  | _ => False

/-- Block `k` of the session's file is still to be sent. Numbers stand for the first 65536
blocks only. -/
def MulticastState.Pending (s : MulticastState) (key : String) (k : Nat) : Prop :=
  ∃ session, s.sessions.lookup key = some session ∧ ∃ τ ∈ s.transfers, τ.key = key ∧
    (τ.Plans session.options.blockSize k ∨
      (k < 65536 ∧ wire (k + 1) ∈ session.retransmitQueue) ∧ τ.TakesQueue)

/-- **The condition.** The client that joins finds its session empty, or all blocks still to be
sent; and the call that a transfer makes does not fail. -/
structure MulticastServer.Serves (srv : MulticastServer) (t : Posix.Tree) (s : MulticastState)
    (e : MulticastEvent) : Prop where
  join : ∀ j now sent key addr session, e = .join j now sent → s.joining[j]? = some (key, addr) →
    s.sessions.lookup key = some session → size session.clients < session.maxClients.toNat →
      size session.clients = 0 ∨
        ∀ k, k * session.options.blockSize < (srv.sessionData t session).length → s.Pending key k
  transfer : ∀ i io τ session, e = .transfer i io → s.transfers[i]? = some τ →
    s.sessions.lookup τ.key = some session → srv.succeeds t session τ io = true

section Plans

variable {srv : MulticastServer} {t : Posix.Tree} {session session' : MulticastSession}
  {τ τ' : TransferTask} {records : List MulticastRecord} {io : TransferIo}

/-- Transfers that are over send nothing. -/
theorem plans_or_takesQueue_running {b k : Nat} (h : τ.Plans b k ∨ τ.TakesQueue) :
    τ.running = true := by
  cases hphase : τ.phase with
  | ended | failed => simp [TransferTask.Plans, TransferTask.TakesQueue, hphase] at h
  | _ => exact running_of_phase hphase (by simp) (by simp)

theorem takesQueue_nextBlock (data : Bytes) (offset : Nat) (blockNum : UInt16) :
    ({ τ with phase := nextBlock data offset blockNum } : TransferTask).TakesQueue := by
  unfold nextBlock
  split_ifs <;> trivial

theorem takesQueue_advanceBlock (data : Bytes) (b offset : Nat) (blockNum : UInt16) :
    ({ τ with phase := advanceBlock data b offset blockNum } : TransferTask).TakesQueue := by
  unfold advanceBlock
  dsimp only
  split_ifs
  · trivial
  · exact takesQueue_nextBlock data _ _

/-- A block that the main loop has not reached yet. -/
theorem plans_advanceBlock {b k j : Nat} (hj : j < k) (hk : k * b < τ.fileData.length) :
    ({ τ with phase := advanceBlock τ.fileData b (j * b) (wire (j + 1)) } : TransferTask).Plans
      b k := by
  have hle : (j + 1) * b ≤ k * b := Nat.mul_le_mul_right b hj
  have hsucc : (j + 1) * b = j * b + b := Nat.succ_mul j b
  have hfull : ¬min b (τ.fileData.length - j * b) < b := by omega
  have hmin : j * b + min b (τ.fileData.length - j * b) = (j + 1) * b := by omega
  have hinside : (j + 1) * b < τ.fileData.length := by omega
  simp only [advanceBlock, if_neg hfull, hmin, nextBlock, if_pos hinside]
  exact hle

theorem nextResend_of_mem {retry : Nat} {rest : List UInt16} {n : UInt16} (h : n ∈ rest) :
    nextResend retry rest = .resending retry rest := by
  cases rest with
  | nil => cases h
  | cons m rest => rfl

/-- A transfer that has a round to come has one after the next block as well. -/
theorem takesQueue_nextResend {retry : Nat} {rest : List UInt16}
    (hretry : retry + 1 < maxRetransmissions) :
    ({ τ with phase := nextResend retry rest } : TransferTask).TakesQueue := by
  cases rest with
  | nil =>
      simp only [nextResend, if_pos hretry]
      trivial
  | cons n rest => exact hretry

theorem index_of_wire {k : Nat} (hk : k < 65536) : (wire (k + 1) - 1).toNat = k := by
  rw [wire_sub_one, toNat_wire_of_lt hk]

theorem TransferTask.Plans.of_phase {b k : Nat} {phase : TransferPhase} (h : τ.Plans b k)
    (hphase : τ.phase = phase) : ({ τ with phase := phase } : TransferTask).Plans b k := by
  subst hphase
  exact h

theorem TransferTask.TakesQueue.of_phase {phase : TransferPhase} (h : τ.TakesQueue)
    (hphase : τ.phase = phase) : ({ τ with phase := phase } : TransferTask).TakesQueue := by
  subst hphase
  exact h

/-- A block that a transfer has on its way is sent, stays on its way, or is queued for a later
round of the transfer. -/
theorem TransferMove.keeps_planned (h : TransferMove srv t session τ io (session', τ', records))
    (hpl : τ.Placed (srv.sessionData t session) session.options.blockSize)
    (hun : session.Unacked) (hsucc : srv.succeeds t session τ io = true)
    (hb : 8 ≤ session.options.blockSize ∧ session.options.blockSize ≤ maxBlockSize) {k : Nat}
    (hk : k * session.options.blockSize < (srv.sessionData t session).length)
    (hplans : τ.Plans session.options.blockSize k) :
    τ'.Plans session.options.blockSize k ∨
      ((k < 65536 ∧ wire (k + 1) ∈ session'.retransmitQueue) ∧ τ'.TakesQueue) ∨
      .data τ.key session.group
        (segPacket session.options.blockSize (srv.sessionData t session) k) ∈ records := by
  cases h with
  | idle => exact Or.inl hplans
  | fails _ h =>
      rw [hsucc] at h
      cases h
  | opens hphase =>
      left
      have hpos : 0 < (srv.sessionData t session).length := by omega
      simp only [nextBlock, if_pos hpos]
      exact Nat.zero_le _
  | sends hphase =>
      obtain ⟨hdata, j, rfl, rfl, -⟩ := hpl.of_phase hphase
      have hle := hplans.of_phase hphase
      have hjk : j ≤ k := by
        by_contra hlt
        have : (k + 1) * session.options.blockSize ≤ j * session.options.blockSize :=
          Nat.mul_le_mul_right _ (by omega)
        rw [Nat.succ_mul] at this
        simp only [TransferTask.Plans] at hle
        omega
      rcases Nat.eq_or_lt_of_le hjk with rfl | hlt
      · -- this is the block
        right; right
        simp only at hdata
        rw [hdata]
        exact List.mem_singleton_self _
      · left
        have : (j + 1) * session.options.blockSize ≤ k * session.options.blockSize :=
          Nat.mul_le_mul_right _ hlt
        rw [Nat.succ_mul] at this
        exact Or.inl (by omega)
  | acked _ hacked =>
      rw [hun.allClientsAcked] at hacked
      cases hacked
  | elapses hphase =>
      obtain ⟨hdata, j, rfl, rfl, -⟩ := hpl.of_phase hphase
      rcases hplans.of_phase hphase with hlt | ⟨hlow, hwire⟩
      · left
        simp only at hdata
        rw [← hdata] at hk
        exact plans_advanceBlock (Nat.lt_of_mul_lt_mul_right hlt) hk
      · -- the number of the block has just been queued
        right; left
        refine ⟨⟨hlow, ?_⟩, takesQueue_advanceBlock _ _ _ _⟩
        rw [MulticastSession.queueRetransmit, AList.mem_insert]
        exact Or.inl hwire.symm
  | begins hphase => exact (hplans.of_phase hphase).elim
  | @skips retry blockNum rest hphase hpast =>
      obtain ⟨hdata, -⟩ := hpl.of_phase hphase
      obtain ⟨hlow, hmem⟩ := hplans.of_phase hphase
      rcases List.mem_cons.mp hmem with rfl | hmem
      · -- the block lies inside the file, so it is not skipped
        exfalso
        simp only at hdata
        rw [index_of_wire hlow, hdata] at hpast
        have hbound : k * session.options.blockSize ≤ 65535 * 65464 :=
          Nat.mul_le_mul (by omega) hb.2
        omega
      · left
        rw [nextResend_of_mem hmem]
        exact ⟨hlow, hmem⟩
  | @resends retry blockNum rest hphase hinside =>
      obtain ⟨hdata, -⟩ := hpl.of_phase hphase
      obtain ⟨hlow, hmem⟩ := hplans.of_phase hphase
      rcases List.mem_cons.mp hmem with rfl | hmem
      · right; right
        simp only at hdata
        rw [index_of_wire hlow, hdata]
        exact List.mem_singleton_self _
      · left
        rw [nextResend_of_mem hmem]
        exact ⟨hlow, hmem⟩

/-- A queued number stays queued, or the transfer has taken it to send the block again. -/
theorem TransferMove.keeps_queued (h : TransferMove srv t session τ io (session', τ', records))
    (hsucc : srv.succeeds t session τ io = true) {b k : Nat} (hlow : k < 65536)
    (hqueue : wire (k + 1) ∈ session.retransmitQueue) :
    τ'.Plans b k ∨
      wire (k + 1) ∈ session'.retransmitQueue ∧ (τ.TakesQueue → τ'.TakesQueue) := by
  cases h with
  | idle => exact Or.inr ⟨hqueue, id⟩
  | fails _ h =>
      rw [hsucc] at h
      cases h
  | opens =>
      exact Or.inr ⟨hqueue, fun _ =>
        @takesQueue_nextBlock { τ with fileData := srv.sessionData t session } _ _ _⟩
  | sends => exact Or.inr ⟨hqueue, fun _ => trivial⟩
  | acked => exact Or.inr ⟨hqueue, fun _ => takesQueue_advanceBlock _ _ _ _⟩
  | elapses =>
      refine Or.inr ⟨?_, fun _ => takesQueue_advanceBlock _ _ _ _⟩
      rw [MulticastSession.queueRetransmit, AList.mem_insert]
      exact Or.inr hqueue
  | @begins retry hphase timeoutSecs now clientOrder queueOrder blocks hblocks =>
      left
      have hmem : wire (k + 1) ∈ blocks := by
        obtain ⟨v, hv⟩ := mem_iff_lookup.mp hqueue
        rw [hblocks]
        exact List.mem_map.mpr ⟨⟨_, v⟩, Order.mem_iter.mpr hv, rfl⟩
      rw [if_neg (List.ne_nil_of_mem hmem)]
      exact ⟨hlow, hmem⟩
  | skips hphase | resends hphase =>
      exact Or.inr ⟨hqueue, fun h => takesQueue_nextResend (h.of_phase hphase)⟩

end Plans

/-! ## Steps of the server -/

theorem mem_or_eq_of_set {α : Type} {l : List α} {i : Nat} {a b x : α} (ha : l[i]? = some a)
    (hx : x ∈ l) : x = a ∨ x ∈ l.set i b := by
  obtain ⟨j, hj⟩ := List.getElem?_of_mem hx
  by_cases hij : i = j
  · subst hij
    rw [ha] at hj
    exact Or.inl (Option.some.inj hj).symm
  · right
    rw [← List.getElem?_set_ne hij (a := b)] at hj
    exact List.mem_of_getElem? hj

section Steps

variable {srv : MulticastServer} {t : Posix.Tree} {s s' : MulticastState} {e : MulticastEvent}

theorem mem_set_of_getElem? {α : Type} {l : List α} {i : Nat} {a b : α} (ha : l[i]? = some a) :
    b ∈ l.set i b :=
  List.mem_set (List.getElem?_eq_some_iff.mp ha).1 b

/-- **Pending blocks** are sent or stay pending, as long as no call fails. -/
theorem MulticastState.Pending.step {key : String} {k : Nat} {session : MulticastSession}
    (hpending : s.Pending key k) (hs : s.WellFormed srv t) (hserves : srv.Serves t s e)
    (h : ServerMove srv t s e s') (hsession : s.sessions.lookup key = some session)
    (hk : k * session.options.blockSize < (srv.sessionData t session).length) :
    s'.Pending key k ∨ .data key session.group
      (segPacket session.options.blockSize (srv.sessionData t session) k) ∈
        s'.log.drop s.log.length := by
  obtain ⟨session₀, hsession₀, τ, hτ, hkey, hplan⟩ := hpending
  rw [hsession] at hsession₀
  cases hsession₀
  cases h with
  | idle hsessions htransfers =>
      exact Or.inl ⟨session, hsessions ▸ hsession, τ, htransfers ▸ hτ, hkey, hplan⟩
  | @creates key₁ filePath r hnew hsessions htransfers =>
      have hne : key ≠ key₁ := by
        rintro rfl
        rw [hsession] at hnew
        cases hnew
      refine Or.inl ⟨session, ?_, τ, htransfers ▸ hτ, hkey, hplan⟩
      rw [hsessions, AList.lookup_insert_ne hne, hsession]
  | @joins key₁ addr now sent j session₁ session₂ isMaster hevent hjoining hsession₁ hadd hsessions
      htransfers =>
      have hτ' : τ ∈ s'.transfers := by
        rw [htransfers]
        exact List.mem_append_left _ hτ
      by_cases hkey₁ : key = key₁
      · subst hkey₁
        rw [hsession] at hsession₁
        cases hsession₁
        obtain ⟨hsame, hqueue⟩ := MulticastSession.addClient_frame hadd
        refine Or.inl ⟨session₂, by rw [hsessions, AList.lookup_insert], τ, hτ', hkey, ?_⟩
        rwa [hqueue, hsame.2.2.1]
      · refine Or.inl ⟨session, ?_, τ, hτ', hkey, hplan⟩
        rw [hsessions, AList.lookup_insert_ne hkey₁, hsession]
  | @moves i io τ₁ τ₂ session₁ session₂ records hevent hτ₁ hsession₁ hmove hsessions htransfers
      hlog =>
      rw [hlog, List.drop_left]
      have hsucc := hserves.transfer i io τ₁ session₁ hevent hτ₁ hsession₁
      obtain ⟨hsame, hkey₂⟩ := hmove.frame
      by_cases hkey₁ : key = τ₁.key
      · -- a transfer of the same session has moved
        rw [← hkey₁, hsession] at hsession₁
        cases hsession₁
        have hsession₂ : s'.sessions.lookup key = some session₂ := by
          rw [hsessions, hkey₁, AList.lookup_insert]
        have hτ₂ : τ₂ ∈ s'.transfers := by
          rw [htransfers]
          exact mem_set_of_getElem? hτ₁
        rcases mem_or_eq_of_set (b := τ₂) hτ₁ hτ with rfl | hτ'
        · obtain ⟨placed, hplaced, hpl⟩ := hs.placed τ (List.mem_of_getElem? hτ₁)
          rw [hkey, hsession] at hplaced
          cases hplaced
          rcases hplan with hplan | ⟨⟨hlow, hqueue⟩, htakes⟩
          · rcases hmove.keeps_planned hpl (hs.unacked key session hsession) hsucc
              (hs.blockSize key session hsession) hk hplan with h | h | h
            · refine Or.inl ⟨session₂, hsession₂, τ₂, hτ₂, hkey₂.trans hkey, Or.inl ?_⟩
              rwa [hsame.2.2.1]
            · exact Or.inl ⟨session₂, hsession₂, τ₂, hτ₂, hkey₂.trans hkey, Or.inr h⟩
            · rw [hkey] at h
              exact Or.inr h
          · refine Or.inl ⟨session₂, hsession₂, τ₂, hτ₂, hkey₂.trans hkey, ?_⟩
            rcases hmove.keeps_queued hsucc hlow hqueue with h | ⟨h, htakes'⟩
            · exact Or.inl h
            · exact Or.inr ⟨⟨hlow, h⟩, htakes' htakes⟩
        · -- the one that would send the block has not moved, but the queue may have changed
          rw [← htransfers] at hτ'
          rcases hplan with hplan | ⟨⟨hlow, hqueue⟩, htakes⟩
          · refine Or.inl ⟨session₂, hsession₂, τ, hτ', hkey, Or.inl ?_⟩
            rwa [hsame.2.2.1]
          · left
            rcases hmove.keeps_queued hsucc hlow hqueue with h | ⟨h, -⟩
            · exact ⟨session₂, hsession₂, τ₂, hτ₂, hkey₂.trans hkey₁.symm, Or.inl h⟩
            · exact ⟨session₂, hsession₂, τ, hτ', hkey, Or.inr ⟨⟨hlow, h⟩, htakes⟩⟩
      · rcases mem_or_eq_of_set (b := τ₂) hτ₁ hτ with rfl | hτ'
        · exact absurd hkey.symm hkey₁
        · refine Or.inl ⟨session, ?_, τ, htransfers ▸ hτ', hkey, hplan⟩
          rw [hsessions, AList.lookup_insert_ne hkey₁, hsession]

/-! ## Clients -/

/-- Each client that was sent an OACK and has not been removed since is in its session, and has
been sent each block since or is still to be sent it. -/
def MulticastState.Served (srv : MulticastServer) (t : Posix.Tree) (s : MulticastState) : Prop :=
  ∀ pre post key addr packet, s.log = pre ++ .oack key addr packet :: post →
    .removed key addr ∉ post →
      ∃ session, s.sessions.lookup key = some session ∧ addr ∈ session.clients ∧
        ∀ k, k * session.options.blockSize < (srv.sessionData t session).length →
          .data key session.group
            (segPacket session.options.blockSize (srv.sessionData t session) k) ∈ post ∨
          s.Pending key k

/-- A client stays in its session until it is removed. -/
theorem mem_clients_of_move (h : ServerMove srv t s e s') {key : String} {addr : SocketAddr}
    {session : MulticastSession} (hsession : s.sessions.lookup key = some session)
    (haddr : addr ∈ session.clients) (hkept : .removed key addr ∉ s'.log.drop s.log.length) :
    ∃ session', s'.sessions.lookup key = some session' ∧ session.SameTransfer session' ∧
      addr ∈ session'.clients := by
  obtain ⟨session', hsession', hsame⟩ := MulticastState.session_of_move h hsession
  refine ⟨session', hsession', hsame, ?_⟩
  cases h with
  | idle hsessions =>
      rw [hsessions, hsession] at hsession'
      cases hsession'
      exact haddr
  | @creates key₁ filePath r hnew hsessions =>
      have hne : key ≠ key₁ := by
        rintro rfl
        rw [hsession] at hnew
        cases hnew
      rw [hsessions, AList.lookup_insert_ne hne, hsession] at hsession'
      cases hsession'
      exact haddr
  | @joins key₁ addr₁ now sent j session₁ session₂ isMaster hevent hjoining hsession₁ hadd
      hsessions =>
      by_cases hkey₁ : key = key₁
      · subst hkey₁
        rw [hsession] at hsession₁
        cases hsession₁
        rw [hsessions, AList.lookup_insert] at hsession'
        cases hsession'
        obtain ⟨-, -, rfl⟩ := MulticastSession.addClient_eq_ok.mp hadd
        exact (AList.mem_insert _).mpr (Or.inr haddr)
      · rw [hsessions, AList.lookup_insert_ne hkey₁, hsession] at hsession'
        cases hsession'
        exact haddr
  | @moves i io τ₁ τ₂ session₁ session₂ records hevent hτ₁ hsession₁ hmove hsessions htransfers
      hlog =>
      rw [hlog, List.drop_left] at hkept
      by_cases hkey₁ : key = τ₁.key
      · rw [← hkey₁, hsession] at hsession₁
        cases hsession₁
        rw [hsessions, hkey₁, AList.lookup_insert] at hsession'
        cases hsession'
        cases hmove with
        | begins =>
            refine MulticastSession.mem_removeClients.mpr ⟨fun hgone => hkept ?_, haddr⟩
            rw [hkey₁]
            exact List.mem_map_of_mem hgone
        | _ => exact haddr
      · rw [hsessions, AList.lookup_insert_ne hkey₁, hsession] at hsession'
        cases hsession'
        exact haddr

theorem log_of_move (h : ServerMove srv t s e s') : ∃ records, s'.log = s.log ++ records := by
  cases h with
  | idle _ _ hlog | creates _ _ _ hlog => exact ⟨[], by rw [hlog, List.append_nil]⟩
  | joins _ _ _ _ _ _ hlog | moves _ _ _ _ _ _ hlog => exact ⟨_, hlog⟩

/-- An OACK is sent to a client that has just been added, and that has all blocks before it. -/
theorem served_of_oack (hs : s.WellFormed srv t) (hserves : srv.Serves t s e)
    (h : ServerMove srv t s e s') {key : String} {addr : SocketAddr} {packet : Bytes}
    {pre post : List MulticastRecord} (hoack : s'.log.drop s.log.length
      = pre ++ .oack key addr packet :: post) :
    post = [] ∧ ∃ session, s'.sessions.lookup key = some session ∧ addr ∈ session.clients ∧
      ∀ k, k * session.options.blockSize < (srv.sessionData t session).length →
        s'.Pending key k := by
  have hmem : .oack key addr packet ∈ s'.log.drop s.log.length := by
    rw [hoack]
    simp
  cases h with
  | idle _ _ hlog | creates _ _ _ hlog =>
      rw [hlog, List.drop_length] at hmem
      cases hmem
  | @joins key₁ addr₁ now sent j session₁ session₂ isMaster hevent hjoining hsession hadd hsessions
      htransfers hlog =>
      rw [hlog, List.drop_left] at hmem hoack
      cases sent with
      | false => cases hmem
      | true =>
          rw [if_pos rfl] at hmem hoack
          rw [List.mem_singleton] at hmem
          cases hmem
          have hpost : post = [] := by
            have := congrArg List.length hoack
            simp only [List.length_append, List.length_cons, List.length_nil] at this
            exact List.eq_nil_of_length_eq_zero (by omega)
          have hmove : ServerMove srv t s e s' :=
            .joins hevent hjoining hsession hadd hsessions htransfers hlog
          have hsession₂ : s'.sessions.lookup key = some session₂ := by
            rw [hsessions, AList.lookup_insert]
          obtain ⟨hsame, -⟩ := MulticastSession.addClient_frame hadd
          obtain ⟨hroom, hmaster, rfl⟩ := MulticastSession.addClient_eq_ok.mp hadd
          refine ⟨hpost, _, hsession₂, (AList.mem_insert _).mpr (Or.inl rfl), fun k hk => ?_⟩
          rw [hsame.sessionData] at hk
          rcases hserves.join j now true key addr session₁ hevent hjoining hsession hroom with
            hempty | hall
          · -- the first client starts a transfer of its own
            have hfirst : isMaster = true := by
              rw [hmaster, decide_eq_true_eq]
              exact hempty
            refine ⟨_, hsession₂, ⟨key, [], .spawned⟩, ?_, rfl, Or.inl trivial⟩
            rw [htransfers, hfirst]
            exact List.mem_append_right _ (List.mem_singleton_self _)
          · rcases (hall k hk).step hs hserves hmove hsession hk with h | h
            · exact h
            · rw [hlog, List.drop_left] at h
              simp at h
  | @moves i io τ₁ τ₂ session₁ session₂ records hevent hτ₁ hsession₁ hmove hsessions htransfers
      hlog =>
      rw [hlog, List.drop_left] at hmem
      exfalso
      cases hmove with
      | begins =>
          obtain ⟨a, -, ha⟩ := List.mem_map.mp hmem
          cases ha
      | sends | resends =>
          rw [List.mem_singleton] at hmem
          cases hmem
      | _ => cases hmem

/-- Where an element of an extended list stands. -/
theorem append_eq_append_cons {α : Type} {l records pre post : List α} {x : α}
    (h : l ++ records = pre ++ x :: post) :
    (∃ post₁, l = pre ++ x :: post₁ ∧ post = post₁ ++ records) ∨
      ∃ pre₁, records = pre₁ ++ x :: post := by
  rcases List.append_eq_append_iff.mp h with ⟨l', rfl, hrecords⟩ | ⟨l', rfl, hpost⟩
  · exact Or.inr ⟨l', hrecords⟩
  · cases l' with
    | nil =>
        rw [List.nil_append] at hpost
        exact Or.inr ⟨[], hpost.symm⟩
    | cons y l' =>
        rw [List.cons_append] at hpost
        injection hpost with hx hpost
        subst hx
        exact Or.inl ⟨l', rfl, hpost⟩

/-- **Clients stay served**, by any event that meets the condition. -/
theorem MulticastState.Served.step (hserved : s.Served srv t) (hs : s.WellFormed srv t)
    (hserves : srv.Serves t s e) (h : ServerMove srv t s e s') : s'.Served srv t := by
  obtain ⟨records, hlog⟩ := log_of_move h
  have hdrop : s'.log.drop s.log.length = records := by rw [hlog, List.drop_left]
  intro pre post key addr packet hsplit hkept
  rw [hlog] at hsplit
  rcases append_eq_append_cons hsplit with ⟨post₁, hold, rfl⟩ | ⟨pre₁, hnew⟩
  · simp only [List.mem_append, not_or] at hkept
    obtain ⟨session, hsession, haddr, hblocks⟩ := hserved pre post₁ key addr packet hold hkept.1
    obtain ⟨session', hsession', hsame, haddr'⟩ :=
      mem_clients_of_move h hsession haddr (by rw [hdrop]; exact hkept.2)
    refine ⟨session', hsession', haddr', fun k hk => ?_⟩
    have hgroup : session'.group = session.group := by
      rw [MulticastSession.group, hsame.2.2.2.1, hsame.2.2.2.2.1]
      rfl
    rw [hsame.sessionData, hsame.2.2.1] at hk ⊢
    rw [hgroup]
    rcases hblocks k hk with hsent | hpending
    · exact Or.inl (List.mem_append_left _ hsent)
    · rcases hpending.step hs hserves h hsession hk with hp | hsent
      · exact Or.inr hp
      · rw [hdrop] at hsent
        exact Or.inl (List.mem_append_right _ hsent)
  · obtain ⟨rfl, session, hsession, haddr, hblocks⟩ :=
      served_of_oack hs hserves h (hdrop.trans hnew)
    exact ⟨session, hsession, haddr, fun k hk => Or.inr (hblocks k hk)⟩

end Steps

/-! ## Transfers end -/

/-- More steps than a round can have. -/
def roundSteps : Nat := 65538

theorem lt_roundSteps {n : Nat} (h : n ≤ 65536) : n + 1 < roundSteps := by
  unfold roundSteps
  omega

/-- A bound on the steps a transfer has left, by its phase. -/
def TransferTask.rank (τ : TransferTask) (data : Bytes) : Nat :=
  match τ.phase with
  | .spawned => 2 * data.length + 2 + maxRetransmissions * roundSteps
  | .sending offset _ => 2 * (data.length - offset) + 1 + maxRetransmissions * roundSteps
  | .waiting offset _ => 2 * (data.length - offset) + maxRetransmissions * roundSteps
  | .roundStart retry => (maxRetransmissions - retry) * roundSteps
  | .resending retry blocks => (maxRetransmissions - 1 - retry) * roundSteps + blocks.length + 1
  | .ended | .failed => 0

section Rank

variable {srv : MulticastServer} {t : Posix.Tree} {session session' : MulticastSession}
  {τ τ' : TransferTask} {records : List MulticastRecord} {io : TransferIo} {data : Bytes}

theorem rank_of_phase {phase : TransferPhase} (hphase : τ.phase = phase) :
    τ.rank data = ({ τ with phase := phase } : TransferTask).rank data := by
  subst hphase
  rfl

theorem rank_pos_of_running (hrun : τ.running = true) {b : Nat} (hpl : τ.Placed data b) :
    0 < τ.rank data := by
  cases hphase : τ.phase with
  | roundStart retry =>
      have hretry : retry < maxRetransmissions := (hpl.of_phase hphase).2
      rw [rank_of_phase hphase]
      exact Nat.mul_pos (by omega) (Nat.zero_lt_of_lt (lt_roundSteps (Nat.zero_le _)))
  | ended | failed =>
      simp [TransferTask.running, hphase] at hrun
  | _ =>
      have hsteps := lt_roundSteps (Nat.zero_le _)
      rw [rank_of_phase hphase]
      simp only [TransferTask.rank, maxRetransmissions]
      omega

theorem rank_nextBlock_le (offset : Nat) (blockNum : UInt16) :
    ({ τ with phase := nextBlock data offset blockNum } : TransferTask).rank data
      ≤ 2 * (data.length - offset) + 1 + maxRetransmissions * roundSteps := by
  unfold nextBlock
  split_ifs
  · exact le_rfl
  · simp [TransferTask.rank]

theorem rank_advanceBlock_lt {b offset : Nat} (hb : 0 < b) (hoffset : offset < data.length)
    (blockNum : UInt16) :
    ({ τ with phase := advanceBlock data b offset blockNum } : TransferTask).rank data
      < 2 * (data.length - offset) + maxRetransmissions * roundSteps := by
  unfold advanceBlock
  dsimp only
  split_ifs with hlast
  · simp only [TransferTask.rank, Nat.sub_zero]
    omega
  · refine lt_of_le_of_lt (rank_nextBlock_le _ _) ?_
    omega

theorem rank_nextResend_lt (retry : Nat) (rest : List UInt16) :
    ({ τ with phase := nextResend retry rest } : TransferTask).rank data
      < (maxRetransmissions - 1 - retry) * roundSteps + (rest.length + 1) + 1 := by
  cases rest with
  | nil =>
      by_cases hnext : retry + 1 < maxRetransmissions
      · simp only [nextResend, if_pos hnext, TransferTask.rank]
        have : maxRetransmissions - (retry + 1) = maxRetransmissions - 1 - retry := by omega
        rw [this, List.length_nil]
        omega
      · simp only [nextResend, if_neg hnext, TransferTask.rank]
        omega
  | cons n rest =>
      simp only [nextResend, TransferTask.rank, List.length_cons]
      omega

/-- **Every step of a transfer lowers its rank**, unless it leaves the transfer as it is. -/
theorem TransferMove.rank_lt (h : TransferMove srv t session τ io (session', τ', records))
    (hpl : τ.Placed (srv.sessionData t session) session.options.blockSize)
    (hb : 8 ≤ session.options.blockSize) :
    τ' = τ ∨ τ'.rank (srv.sessionData t session) < τ.rank (srv.sessionData t session) := by
  have hb' : 0 < session.options.blockSize := by omega
  cases h with
  | idle => exact Or.inl rfl
  | fails hrun => exact Or.inr (rank_pos_of_running hrun hpl)
  | opens hphase =>
      right
      rw [rank_of_phase hphase]
      refine lt_of_le_of_lt (@rank_nextBlock_le { τ with fileData := srv.sessionData t session }
        (srv.sessionData t session) 0 1) ?_
      simp only [TransferTask.rank]
      omega
  | sends hphase =>
      right
      rw [rank_of_phase hphase]
      simp only [TransferTask.rank]
      omega
  | acked hphase | elapses hphase =>
      right
      obtain ⟨hdata, j, -, -, hlt⟩ := hpl.of_phase hphase
      simp only at hdata
      rw [rank_of_phase hphase, hdata]
      exact @rank_advanceBlock_lt { τ with fileData := srv.sessionData t session } _ _ _ hb' hlt _
  | @begins retry hphase timeoutSecs now clientOrder queueOrder blocks hblocks =>
      right
      obtain ⟨-, hretry⟩ := hpl.of_phase hphase
      have hlen : blocks.length + 1 < roundSteps := by
        rw [hblocks, List.length_map, Order.length_iter]
        exact lt_roundSteps (size_le_65536 _)
      rw [rank_of_phase hphase]
      split_ifs
      · exact Nat.mul_pos (by omega) (by omega)
      · simp only [TransferTask.rank]
        have : maxRetransmissions - retry = (maxRetransmissions - 1 - retry) + 1 := by omega
        rw [this, Nat.succ_mul]
        omega
  | skips hphase | resends hphase =>
      right
      rw [rank_of_phase hphase]
      exact rank_nextResend_lt _ _

end Rank

/-- The steps that a transfer has left, if it is one of the session. -/
def TransferTask.share (τ : TransferTask) (key : String) (data : Bytes) : Nat :=
  if τ.key = key then τ.rank data else 0

/-- The steps that the transfers of one session have left. -/
def MulticastState.rank (s : MulticastState) (key : String) (data : Bytes) : Nat :=
  (s.transfers.map (·.share key data)).sum

theorem share_of_ne {τ : TransferTask} {key : String} (h : τ.key ≠ key) (data : Bytes) :
    τ.share key data = 0 := if_neg h

theorem sum_map_set {α : Type} {f : α → Nat} : ∀ {l : List α} {i : Nat} {a : α} (b : α),
    l[i]? = some a → ((l.set i b).map f).sum + f a = (l.map f).sum + f b := by
  intro l
  induction l with
  | nil => intro i a b h; cases h
  | cons x l ih =>
      intro i a b h
      cases i with
      | zero =>
          cases h
          simp only [List.set_cons_zero, List.map_cons, List.sum_cons]
          omega
      | succ i =>
          have := ih b h
          simp only [List.set_cons_succ, List.map_cons, List.sum_cons]
          omega

/-- Only the element that is replaced changes. -/
theorem changed_by_set {α : Type} {l : List α} {i i' : Nat} {a b x : α} (ha : l[i]? = some a)
    (hx : l[i']? = some x) (hne : (l.set i b)[i']? ≠ some x) : x = a ∧ b ≠ a := by
  by_cases hi : i = i'
  · subst hi
    rw [ha] at hx
    cases hx
    rw [List.getElem?_set_self (List.getElem?_eq_some_iff.mp ha).1] at hne
    exact ⟨rfl, fun h => hne (congrArg some h)⟩
  · rw [List.getElem?_set_ne hi] at hne
    exact absurd hx hne

section Liveness

variable {srv : MulticastServer} {t : Posix.Tree} {s s' : MulticastState} {e : MulticastEvent}

/-- The rank does not grow, and falls when a transfer of the session changes. -/
def RankFalls (key : String) (data : Bytes) (s s' : MulticastState) : Prop :=
  s'.rank key data ≤ s.rank key data ∧
    ∀ (i : Nat) (τ : TransferTask), s.transfers[i]? = some τ → τ.key = key →
      s'.transfers[i]? ≠ some τ → s'.rank key data < s.rank key data

theorem rankFalls_append {key : String} {transfers : List TransferTask}
    (htransfers : s'.transfers = s.transfers ++ transfers)
    (hother : ∀ τ ∈ transfers, τ.key ≠ key) (data : Bytes) : RankFalls key data s s' := by
  refine ⟨le_of_eq ?_, fun i τ hτ _ hne => absurd ?_ hne⟩
  · have hzero : (transfers.map (·.share key data)).sum = 0 := by
      rw [List.sum_eq_zero_iff]
      intro n hn
      obtain ⟨τ, hτ, rfl⟩ := List.mem_map.mp hn
      exact share_of_ne (hother τ hτ) data
    rw [MulticastState.rank, htransfers, List.map_append, List.sum_append, hzero]
    rfl
  · rw [htransfers, List.getElem?_append_left (List.getElem?_eq_some_iff.mp hτ).1, hτ]

/-- The transfers of a session with a client have fewer and fewer steps left: no new transfer
starts, and one that moves lowers its rank. -/
theorem rankFalls_of_move (h : ServerMove srv t s e s') (hs : s.WellFormed srv t) {key : String}
    {session : MulticastSession} (hsession : s.sessions.lookup key = some session)
    (hclient : ∃ a, a ∈ session.clients) : RankFalls key (srv.sessionData t session) s s' := by
  cases h with
  | idle _ htransfers | creates _ _ htransfers =>
      exact rankFalls_append (by rw [htransfers, List.append_nil]) (fun τ h => by cases h) _
  | joins _ _ hsession₁ hadd _ htransfers =>
      refine rankFalls_append htransfers (fun τ hτ hkey => ?_) _
      split_ifs at hτ with hnew
      · rw [List.mem_singleton] at hτ
        subst hτ
        subst hkey
        -- the client that starts a transfer has found its session empty
        rw [hsession] at hsession₁
        cases hsession₁
        obtain ⟨-, hmaster, -⟩ := MulticastSession.addClient_eq_ok.mp hadd
        rw [Bool.and_eq_true] at hnew
        rw [hnew.2, eq_comm, decide_eq_true_eq] at hmaster
        obtain ⟨a, ha⟩ := hclient
        exact size_eq_zero.mp hmaster a ha
      · cases hτ
  | @moves i io τ₁ τ₂ session₁ session₂ records hevent hτ₁ hsession₁ hmove hsessions htransfers =>
      have hsum := @sum_map_set _ (·.share key (srv.sessionData t session)) _ _ _ τ₂ hτ₁
      have hkey₂ := hmove.frame.2
      -- what the move does to the share of the transfer
      have hfall : τ₂ = τ₁ ∨ τ₁.key ≠ key ∨ τ₂.share key (srv.sessionData t session)
          < τ₁.share key (srv.sessionData t session) := by
        by_cases hkey : τ₁.key = key
        · obtain ⟨placed, hplaced, hpl⟩ := hs.placed τ₁ (List.mem_of_getElem? hτ₁)
          rw [hkey, hsession] at hsession₁ hplaced
          cases hsession₁
          cases hplaced
          rcases hmove.rank_lt hpl (hs.blockSize key session hsession).1 with h | h
          · exact Or.inl h
          · rw [TransferTask.share, TransferTask.share, if_pos hkey, if_pos (hkey₂.trans hkey)]
            exact Or.inr (Or.inr h)
        · exact Or.inr (Or.inl hkey)
      have hle : τ₂.share key (srv.sessionData t session)
          ≤ τ₁.share key (srv.sessionData t session) := by
        rcases hfall with rfl | hkey | hlt
        · exact le_rfl
        · rw [share_of_ne (hkey₂ ▸ hkey)]
          exact Nat.zero_le _
        · exact le_of_lt hlt
      rw [RankFalls, MulticastState.rank, MulticastState.rank, htransfers]
      refine ⟨by omega, fun i' τ hτ hkey hne => ?_⟩
      obtain ⟨rfl, hchanged⟩ := changed_by_set hτ₁ hτ hne
      rcases hfall with h | h | hlt
      · exact absurd h hchanged
      · exact absurd hkey h
      · omega

/-- Each running transfer moves on at some time. -/
def MulticastServer.Fair (srv : MulticastServer) (t : Posix.Tree) (es : Nat → MulticastEvent) :
    Prop :=
  ∀ (n i : Nat) (τ : TransferTask), (srv.stateAt t es n).transfers[i]? = some τ →
    τ.running = true →
    ∃ m, n ≤ m ∧ (srv.stateAt t es m).transfers[i]? = some τ ∧
      (srv.stateAt t es (m + 1)).transfers[i]? ≠ some τ

theorem MulticastServer.stateAt_wellFormed (srv : MulticastServer) (t : Posix.Tree)
    (es : Nat → MulticastEvent) (n : Nat) : (srv.stateAt t es n).WellFormed srv t :=
  srv.run_wellFormed t _

theorem MulticastServer.stateAt_move (es : Nat → MulticastEvent) (n : Nat) :
    ServerMove srv t (srv.stateAt t es n) (es n) (srv.stateAt t es (n + 1)) := by
  rw [stateAt_succ]
  exact step_move

/-- The log of a run only grows. -/
theorem MulticastServer.stateAt_log (es : Nat → MulticastEvent) {n m : Nat} (h : n ≤ m) :
    ∃ records, (srv.stateAt t es m).log = (srv.stateAt t es n).log ++ records := by
  induction m, h using Nat.le_induction with
  | base => exact ⟨[], by rw [List.append_nil]⟩
  | succ m hm ih =>
      obtain ⟨records, hlog⟩ := ih
      obtain ⟨more, hmore⟩ := log_of_move (stateAt_move es m)
      exact ⟨records ++ more, by rw [hmore, hlog, List.append_assoc]⟩

theorem MulticastServer.stateAt_served {es : Nat → MulticastEvent}
    (hserves : ∀ n, srv.Serves t (srv.stateAt t es n) (es n)) (n : Nat) :
    (srv.stateAt t es n).Served srv t := by
  induction n with
  | zero =>
      intro pre post key addr packet h
      cases pre <;> cases h
  | succ n ih => exact ih.step (srv.stateAt_wellFormed t es n) (hserves n) (stateAt_move es n)

/-- A session keeps its data. -/
theorem MulticastServer.stateAt_session (es : Nat → MulticastEvent) {n m : Nat} (h : n ≤ m)
    {key : String} {session : MulticastSession}
    (hsession : (srv.stateAt t es n).sessions.lookup key = some session) :
    ∃ session', (srv.stateAt t es m).sessions.lookup key = some session' ∧
      session.SameTransfer session' := by
  induction m, h using Nat.le_induction with
  | base => exact ⟨session, hsession, .refl _⟩
  | succ m hm ih =>
      obtain ⟨session₁, hsession₁, hsame₁⟩ := ih
      obtain ⟨session₂, hsession₂, hsame₂⟩ :=
        MulticastState.session_of_move (stateAt_move es m) hsession₁
      exact ⟨session₂, hsession₂, hsame₁.trans hsame₂⟩

end Liveness

/-- **Every client is served.** In a fair run in which each client finds its session empty or
all blocks still to be sent, and no call of a transfer fails, each client that is sent an OACK
is removed later or is sent every block of its file after it. -/
theorem every_client_served (srv : MulticastServer) (t : Posix.Tree) (es : Nat → MulticastEvent)
    (hserves : ∀ n, srv.Serves t (srv.stateAt t es n) (es n)) (hfair : srv.Fair t es) (n : Nat)
    (key : String) (addr : SocketAddr) (packet : Bytes)
    (hoack : (srv.stateAt t es (n + 1)).log
      = (srv.stateAt t es n).log ++ [.oack key addr packet]) :
    ∃ m session, n < m ∧ (srv.stateAt t es m).sessions.lookup key = some session ∧
      (.removed key addr ∈ (srv.stateAt t es m).log.drop (srv.stateAt t es (n + 1)).log.length ∨
        ∀ k, k * session.options.blockSize < (srv.sessionData t session).length →
          .data key session.group
            (segPacket session.options.blockSize (srv.sessionData t session) k) ∈
              (srv.stateAt t es m).log.drop (srv.stateAt t es (n + 1)).log.length) := by
  have hwell := srv.stateAt_wellFormed t es
  -- what the client has been told and sent since
  have hsince : ∀ m, n + 1 ≤ m → (srv.stateAt t es m).log = (srv.stateAt t es n).log ++
      .oack key addr packet ::
        (srv.stateAt t es m).log.drop (srv.stateAt t es (n + 1)).log.length := by
    intro m hm
    obtain ⟨records, hlog⟩ : ∃ records, (srv.stateAt t es m).log =
        (srv.stateAt t es (n + 1)).log ++ records := MulticastServer.stateAt_log es hm
    rw [hlog, List.drop_left, hoack, List.append_assoc]
    rfl
  obtain ⟨session₀, hsession₀, -⟩ :=
    MulticastServer.stateAt_served hserves (n + 1) _ [] key addr packet hoack (by simp)
  by_contra hnever
  push Not at hnever
  -- at each later time it is a client, and has been sent each block or is still to be sent it
  have hlater : ∀ m, n + 1 ≤ m → ∃ session,
      (srv.stateAt t es m).sessions.lookup key = some session ∧ (∃ a, a ∈ session.clients) ∧
      ∃ k, k * session.options.blockSize < (srv.sessionData t session).length ∧
        (srv.stateAt t es m).Pending key k := by
    intro m hm
    obtain ⟨session, hsession, -⟩ := MulticastServer.stateAt_session es hm hsession₀
    obtain ⟨hkept, k, hk, hunsent⟩ := hnever m session hm hsession
    obtain ⟨session', hsession', haddr, hblocks⟩ :=
      MulticastServer.stateAt_served hserves m _ _ key addr packet (hsince m hm) hkept
    rw [hsession] at hsession'
    cases hsession'
    refine ⟨session, hsession, ⟨addr, haddr⟩, k, hk, ?_⟩
    rcases hblocks k hk with hsent | hpending
    · exact absurd hsent hunsent
    · exact hpending
  obtain ⟨session, hsession, -⟩ := hlater (n + 1) le_rfl
  have hrank : ∀ m, n + 1 ≤ m → RankFalls key (srv.sessionData t session) (srv.stateAt t es m)
      (srv.stateAt t es (m + 1)) := by
    intro m hm
    obtain ⟨session', hsession', hclient, -⟩ := hlater m hm
    obtain ⟨session'', hsession'', hsame⟩ := MulticastServer.stateAt_session es hm hsession
    rw [hsession'] at hsession''
    cases hsession''
    rw [← hsame.sessionData]
    exact rankFalls_of_move (MulticastServer.stateAt_move es m) (hwell m) hsession' hclient
  -- the transfers of the session come to an end
  obtain ⟨m, hm, hended⟩ := @eventually_of_rank _ (srv.stateAt t es)
    (fun s => s.rank key (srv.sessionData t session))
    (fun s => ∀ τ ∈ s.transfers, τ.key = key → τ.running = false) (n + 1)
    (fun m hm => (hrank m hm).1) (fun m hm hgoal => by
      push Not at hgoal
      obtain ⟨τ, hτ, hkey, hrun⟩ := hgoal
      obtain ⟨i, hi⟩ := List.getElem?_of_mem hτ
      obtain ⟨k, hk, hbefore, hafter⟩ := hfair m i τ hi (by simpa using hrun)
      exact ⟨k, hk, (hrank k (by omega)).2 i τ hbefore hkey hafter⟩)
  -- but then no block is still to be sent
  obtain ⟨_, _, -, k, -, _, -, τ, hτ, hkey, hplan⟩ := hlater m hm
  have hrun : τ.running = true := by
    apply @plans_or_takesQueue_running τ
    rcases hplan with h | ⟨-, h⟩
    · exact Or.inl h
    · exact Or.inr h
  rw [hended τ hτ hkey] at hrun
  cases hrun

/-! ## Runs that come to rest -/

/-- The given events, then one for a transfer that does not exist. -/
def restingRun (events : List MulticastEvent) (n : Nat) : MulticastEvent :=
  events[n]?.getD (.transfer 99 .polled)

section Resting

variable {srv : MulticastServer} {t : Posix.Tree} {events : List MulticastEvent}

theorem stateAt_restingRun {n : Nat} (h : n ≤ events.length) :
    srv.stateAt t (restingRun events) n = srv.run t (events.take n) := by
  have hmap : (List.range n).map (restingRun events) = events.take n := by
    apply List.ext_getElem
    · simp [h]
    · intro i h₁ h₂
      have hi : i < events.length := by
        rw [List.length_take] at h₂
        omega
      simp [restingRun, List.getElem?_eq_getElem hi]
  rw [MulticastServer.stateAt, hmap]

theorem stateAt_restingRun_end (hfew : (srv.run t events).transfers.length ≤ 99) {n : Nat}
    (h : events.length ≤ n) : srv.stateAt t (restingRun events) n = srv.run t events := by
  induction n, h using Nat.le_induction with
  | base => rw [stateAt_restingRun le_rfl, List.take_length]
  | succ n hn ih =>
      rw [MulticastServer.stateAt_succ, ih, restingRun, List.getElem?_eq_none hn]
      have hnone : (srv.run t events).transfers[99]? = none := List.getElem?_eq_none hfew
      simp only [Option.getD_none, MulticastServer.step, hnone]

/-- Every transfer that runs at some time moves on at a later one. -/
def fairCheck (srv : MulticastServer) (t : Posix.Tree) (events : List MulticastEvent) : Bool :=
  (List.range (events.length + 1)).all fun n =>
    let s := srv.run t (events.take n)
    (List.range s.transfers.length).all fun i =>
      match s.transfers[i]? with
      | none => true
      | some τ => !τ.running || (List.range events.length).any fun m =>
          n ≤ m && (srv.run t (events.take m)).transfers[i]? = some τ &&
            (srv.run t (events.take (m + 1))).transfers[i]? ≠ some τ

theorem fair_of_check (hfew : (srv.run t events).transfers.length ≤ 99)
    (hcheck : fairCheck srv t events = true) : srv.Fair t (restingRun events) := by
  -- a transfer that runs after the last event would have to move before it
  have hmain : ∀ (n i : Nat) (τ : TransferTask), n ≤ events.length →
      (srv.run t (events.take n)).transfers[i]? = some τ →
      τ.running = true → ∃ m, n ≤ m ∧ m < events.length ∧
        (srv.run t (events.take m)).transfers[i]? = some τ ∧
        (srv.run t (events.take (m + 1))).transfers[i]? ≠ some τ := by
    intro n i τ hn hτ hrun
    have hi := (List.getElem?_eq_some_iff.mp hτ).1
    have h := List.all_eq_true.mp hcheck n (List.mem_range.mpr (by omega))
    have h := List.all_eq_true.mp h i (List.mem_range.mpr hi)
    simp only [hτ, hrun, Bool.not_true, Bool.false_or, List.any_eq_true, List.mem_range,
      Bool.and_eq_true, decide_eq_true_eq] at h
    obtain ⟨m, hm, ⟨hnm, hsame⟩, hchanged⟩ := h
    exact ⟨m, hnm, hm, hsame, hchanged⟩
  intro n i τ hτ hrun
  by_cases hn : n ≤ events.length
  · rw [stateAt_restingRun hn] at hτ
    obtain ⟨m, hnm, hm, hsame, hchanged⟩ := hmain n i τ hn hτ hrun
    refine ⟨m, hnm, ?_, ?_⟩
    · rwa [stateAt_restingRun (by omega)]
    · rwa [stateAt_restingRun (by omega)]
  · rw [stateAt_restingRun_end hfew (by omega)] at hτ
    obtain ⟨m, hnm, hm, -⟩ := hmain events.length i τ le_rfl
      (by rw [List.take_length]; exact hτ) hrun
    omega

/-- `Serves`, where no client joins but the first one of a session. -/
def servesCheck (srv : MulticastServer) (t : Posix.Tree) (s : MulticastState) :
    MulticastEvent → Bool
  | .join j _ _ =>
      match s.joining[j]? with
      | none => true
      | some (key, _) =>
          match s.sessions.lookup key with
          | none => true
          | some session => size session.clients = 0
  | .transfer i io =>
      match s.transfers[i]? with
      | none => true
      | some τ =>
          match s.sessions.lookup τ.key with
          | none => true
          | some session => srv.succeeds t session τ io
  | _ => true

theorem serves_of_check {s : MulticastState} {e : MulticastEvent}
    (h : servesCheck srv t s e = true) : srv.Serves t s e where
  join := by
    rintro j now sent key addr session rfl hj hsession -
    simp only [servesCheck, hj, hsession, decide_eq_true_eq] at h
    exact Or.inl h
  transfer := by
    rintro i io τ session rfl hτ hsession
    simpa only [servesCheck, hτ, hsession] using h

theorem serves_restingRun (hfew : (srv.run t events).transfers.length ≤ 99)
    (hcheck : (List.range events.length).all (fun n =>
      servesCheck srv t (srv.run t (events.take n)) (restingRun events n)) = true) (n : Nat) :
    srv.Serves t (srv.stateAt t (restingRun events) n) (restingRun events n) := by
  apply serves_of_check
  by_cases hn : n < events.length
  · rw [stateAt_restingRun (Nat.le_of_lt hn)]
    exact List.all_eq_true.mp hcheck n (List.mem_range.mpr hn)
  · rw [stateAt_restingRun_end hfew (by omega), restingRun, List.getElem?_eq_none (by omega)]
    have hnone : (srv.run t events).transfers[99]? = none := List.getElem?_eq_none hfew
    simp only [Option.getD_none, servesCheck, hnone]

end Resting

/-- A round of a transfer that finds all clients active. -/
def quietRound : MulticastEvent := .transfer 0 (.round 0 (.newest _ _) (.newest _ _))

/-- One client receives `a`, first in the main loop and then again. -/
def singleRun : List MulticastEvent :=
  joinEvents "a" 1 ++ [.transfer 0 (.opened true), .transfer 0 (.sent true), .transfer 0 .elapsed,
    quietRound, .transfer 0 (.sent true), quietRound]

theorem every_client_served_single :
    ∃ m session, 1 < m ∧
      (plainServer.stateAt twoFileTree (restingRun singleRun) m).sessions.lookup "a:Octet"
        = some session ∧
      (.removed "a:Octet" ⟨.v4 1, 2000⟩ ∈
          (plainServer.stateAt twoFileTree (restingRun singleRun) m).log.drop
            (plainServer.stateAt twoFileTree (restingRun singleRun) 2).log.length ∨
        ∀ k, k * session.options.blockSize < (plainServer.sessionData twoFileTree session).length →
          .data "a:Octet" session.group (segPacket session.options.blockSize
              (plainServer.sessionData twoFileTree session) k) ∈
            (plainServer.stateAt twoFileTree (restingRun singleRun) m).log.drop
              (plainServer.stateAt twoFileTree (restingRun singleRun) 2).log.length) := by
  have hfew : (plainServer.run twoFileTree singleRun).transfers.length ≤ 99 := by decide +kernel
  refine every_client_served plainServer twoFileTree (restingRun singleRun)
    (serves_restingRun hfew (by decide +kernel)) (fair_of_check hfew (by decide +kernel)) 1
    "a:Octet" ⟨.v4 1, 2000⟩ (buildOackPacket [⟨"multicast", "224.0.1.1,1758,1"⟩]) ?_
  rw [stateAt_restingRun (by decide), stateAt_restingRun (by decide)]
  decide +kernel

/-- The second client comes when the transfer is over. -/
def lateRun : List MulticastEvent := singleRun ++ joinEvents "a" 2

/-- **A client is forgotten.** It is sent an OACK and stays in the session, but nothing is sent
to it, however long it waits; no call has failed, and every transfer has come to its end. -/
theorem late_client_forgotten :
    let state := plainServer.stateAt twoFileTree (restingRun lateRun)
    plainServer.Fair twoFileTree (restingRun lateRun) ∧
      (state 10).log = (state 9).log ++
        [.oack "a:Octet" ⟨.v4 2, 2000⟩ (buildOackPacket [⟨"multicast", "224.0.1.1,1758,0"⟩])] ∧
      ¬∃ m session, 9 < m ∧ (state m).sessions.lookup "a:Octet" = some session ∧
        (.removed "a:Octet" ⟨.v4 2, 2000⟩ ∈ (state m).log.drop (state 10).log.length ∨
          ∀ k, k * session.options.blockSize
              < (plainServer.sessionData twoFileTree session).length →
            .data "a:Octet" session.group (segPacket session.options.blockSize
                (plainServer.sessionData twoFileTree session) k) ∈
              (state m).log.drop (state 10).log.length) := by
  intro state
  have hfew : (plainServer.run twoFileTree lateRun).transfers.length ≤ 99 := by decide +kernel
  have hrest : ∀ m, 10 ≤ m → state m = plainServer.run twoFileTree lateRun := fun m hm =>
    stateAt_restingRun_end hfew hm
  refine ⟨fair_of_check hfew (by decide +kernel), ?_, ?_⟩
  · rw [show state 10 = _ from stateAt_restingRun (by decide),
      show state 9 = _ from stateAt_restingRun (by decide)]
    decide +kernel
  · rintro ⟨m, session, hm, hsession, h⟩
    rw [hrest m hm, hrest 10 le_rfl, List.drop_length] at h
    rw [hrest m hm] at hsession
    rcases h with h | h
    · cases h
    · -- the file has a block
      have hfile : ((plainServer.run twoFileTree lateRun).sessions.lookup "a:Octet").map
          (plainServer.sessionData twoFileTree) = some [97] := by decide +kernel
      rw [hsession] at hfile
      have hdata : plainServer.sessionData twoFileTree session = [97] := Option.some.inj hfile
      have := h 0 (by rw [hdata, Nat.zero_mul]; exact Nat.one_pos)
      cases this

end UsgTftp
