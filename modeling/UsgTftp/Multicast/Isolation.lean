import UsgTftp.Multicast.Acks

set_option autoImplicit false

/-! # Sessions that share a group

Every session has the group that the configuration names, so that the clients of one session
receive what another one sends. They receive only blocks of their own file if no client joins
a session while one for another file is live (`isolated_of_soleFile`), and not in general
(`two_files_not_isolated`).
-/

namespace UsgTftp

open HashTable SeqNum Segment Reactive

/-! ## Live sessions -/

/-- Two sessions send the same blocks. -/
def MulticastSession.SameFile (session session' : MulticastSession) : Prop :=
  session'.filePath = session.filePath ∧ session'.mode = session.mode ∧
    session'.options.blockSize = session.options.blockSize

namespace MulticastState

/-- The session has clients, or a transfer of it is running. -/
def Live (s : MulticastState) (key : String) : Prop :=
  (∃ session, s.sessions.lookup key = some session ∧ ∃ a, a ∈ session.clients) ∨
    ∃ τ ∈ s.transfers, τ.key = key ∧ τ.running = true

/-- A client that gets into a session finds no live session for another file. -/
def SoleFile (s : MulticastState) (e : MulticastEvent) : Prop :=
  ∀ j now sent key addr session, e = .join j now sent → s.joining[j]? = some (key, addr) →
    s.sessions.lookup key = some session → size session.clients < session.maxClients.toNat →
      ∀ key' session', s.sessions.lookup key' = some session' → s.Live key' →
        session.SameFile session'

end MulticastState

/-- What the event sends to a group is, for each client that was told to listen there, a block
of the file that it asked for. -/
def MulticastServer.Isolated (srv : MulticastServer) (t : Posix.Tree) (s : MulticastState)
    (e : MulticastEvent) : Prop :=
  ∀ key dest packet, .data key dest packet ∈ (srv.step t s e).log.drop s.log.length →
    ∀ key' session, s.sessions.lookup key' = some session → (∃ a, a ∈ session.clients) →
      session.group = dest →
        DataBlock (srv.sessionData t session) session.options.blockSize packet

/-! ## One file at a time -/

section OneFile

variable {srv : MulticastServer} {t : Posix.Tree} {s s' : MulticastState} {e : MulticastEvent}

theorem MulticastSession.SameTransfer.sameFile {session session' : MulticastSession}
    (h : session.SameTransfer session') : session.SameFile session' :=
  ⟨h.1, h.2.1, by rw [h.2.2.1]⟩

namespace MulticastSession.SameFile

variable {session₁ session₂ session₃ : MulticastSession}

theorem symm (h : session₁.SameFile session₂) : session₂.SameFile session₁ :=
  ⟨h.1.symm, h.2.1.symm, h.2.2.symm⟩

theorem trans (h : session₁.SameFile session₂) (h' : session₂.SameFile session₃) :
    session₁.SameFile session₃ :=
  ⟨h'.1.trans h.1, h'.2.1.trans h.2.1, h'.2.2.trans h.2.2⟩

theorem sessionData (h : session₁.SameFile session₂) :
    srv.sessionData t session₂ = srv.sessionData t session₁ := by
  simp only [MulticastServer.sessionData, MulticastSession.fileData, h.1, h.2.1]

end MulticastSession.SameFile

/-- All live sessions are for the same file. -/
def MulticastState.OneFile (s : MulticastState) : Prop :=
  ∀ key key' session session', s.sessions.lookup key = some session →
    s.sessions.lookup key' = some session' → s.Live key → s.Live key' → session.SameFile session'

/-- A session that is live after a step was so before, or a client has got into it. -/
theorem live_of_move (h : ServerMove srv t s e s') {key : String}
    (hlive : s'.Live key) : s.Live key ∨
      ∃ j now sent addr session, e = .join j now sent ∧ s.joining[j]? = some (key, addr) ∧
        s.sessions.lookup key = some session ∧ size session.clients < session.maxClients.toNat := by
  cases h with
  | idle hsessions htransfers =>
      left
      rwa [MulticastState.Live, ← hsessions, ← htransfers]
  | @creates key₁ filePath r hnew hsessions htransfers =>
      left
      rcases hlive with ⟨session, hsession, a, ha⟩ | ⟨τ, hτ, hkey, hrun⟩
      · rw [hsessions, lookup_insert_eq] at hsession
        split_ifs at hsession
        · cases hsession
          exact absurd ha (AList.notMem_empty a)
        · exact Or.inl ⟨session, hsession, a, ha⟩
      · exact Or.inr ⟨τ, htransfers ▸ hτ, hkey, hrun⟩
  | @joins key₁ addr now sent j session₁ session₂ isMaster hevent hjoining hsession₁ hadd hsessions
      htransfers =>
      by_cases hkey₁ : key = key₁
      · subst hkey₁
        exact Or.inr ⟨j, now, sent, addr, session₁, hevent, hjoining, hsession₁,
          (MulticastSession.addClient_eq_ok.mp hadd).1⟩
      left
      rcases hlive with ⟨session, hsession, a, ha⟩ | ⟨τ, hτ, hkey, hrun⟩
      · rw [hsessions, AList.lookup_insert_ne hkey₁] at hsession
        exact Or.inl ⟨session, hsession, a, ha⟩
      · rw [htransfers, List.mem_append] at hτ
        rcases hτ with hτ | hτ
        · exact Or.inr ⟨τ, hτ, hkey, hrun⟩
        · split_ifs at hτ
          · rw [List.mem_singleton] at hτ
            subst hτ
            exact absurd hkey.symm hkey₁
          · cases hτ
  | @moves i io τ₁ τ₂ session₁ session₂ records hevent hτ₁ hsession₁ hmove hsessions htransfers =>
      left
      rcases hlive with ⟨session, hsession, a, ha⟩ | ⟨τ, hτ, hkey, hrun⟩
      · rw [hsessions, lookup_insert_eq] at hsession
        split_ifs at hsession with hkey₁
        · cases hsession
          exact Or.inl ⟨session₁, hkey₁ ▸ hsession₁, a, hmove.mem_clients ha⟩
        · exact Or.inl ⟨session, hsession, a, ha⟩
      · rw [htransfers] at hτ
        rcases List.mem_or_eq_of_mem_set hτ with hτ | rfl
        · exact Or.inr ⟨τ, hτ, hkey, hrun⟩
        · exact Or.inr ⟨τ₁, List.mem_of_getElem? hτ₁, hmove.frame.2.symm.trans hkey,
            hmove.running hrun⟩

/-- A live session has been created before. -/
theorem MulticastState.Live.exists_session (hs : s.WellFormed srv t) {key : String}
    (h : s.Live key) : ∃ session, s.sessions.lookup key = some session := by
  rcases h with ⟨session, hsession, -⟩ | ⟨τ, hτ, rfl, -⟩
  · exact ⟨session, hsession⟩
  · obtain ⟨session, hsession, -⟩ := hs.placed τ hτ
    exact ⟨session, hsession⟩

theorem MulticastState.OneFile.step (hone : s.OneFile) (hs : s.WellFormed srv t)
    (h : ServerMove srv t s e s') (hsole : s.SoleFile e) : s'.OneFile := by
  -- sessions of the old state stand for those of the new one
  have hback : ∀ key session', s'.sessions.lookup key = some session' → s'.Live key →
      ∃ session, s.sessions.lookup key = some session ∧ session.SameFile session' := by
    intro key session' hsession' hlive
    have hold : ∃ session, s.sessions.lookup key = some session := by
      rcases live_of_move h hlive with hlive | ⟨_, _, _, _, session, -, -, hsession, -⟩
      · exact hlive.exists_session hs
      · exact ⟨session, hsession⟩
    obtain ⟨session, hsession⟩ := hold
    obtain ⟨session'', hsession'', hsame⟩ := MulticastState.session_of_move h hsession
    rw [hsession'] at hsession''
    cases hsession''
    exact ⟨session, hsession, hsame.sameFile⟩
  intro key key' session session' hsession hsession' hlive hlive'
  obtain ⟨old, hold, hsame⟩ := hback key session hsession hlive
  obtain ⟨old', hold', hsame'⟩ := hback key' session' hsession' hlive'
  suffices h : old.SameFile old' from (hsame.symm.trans h).trans hsame'
  rcases live_of_move h hlive with hl | ⟨j, now, sent, addr, joined, he, hj, hl, hroom⟩
  · rcases live_of_move h hlive' with hl' | ⟨j, now, sent, addr, joined, he, hj, hl', hroom⟩
    · exact hone key key' old old' hold hold' hl hl'
    · rw [hold'] at hl'
      cases hl'
      exact (hsole j now sent key' addr old' he hj hold' hroom key old hold hl).symm
  · rw [hold] at hl
    cases hl
    rcases live_of_move h hlive' with hl' | ⟨j', now', sent', addr', joined', he', hj', hl', hroom'⟩
    · exact hsole j now sent key addr old he hj hold hroom key' old' hold' hl'
    · -- both are the session that the client has got into
      rw [he] at he'
      cases he'
      rw [hj] at hj'
      cases hj'
      rw [hold] at hold'
      cases hold'
      exact ⟨rfl, rfl, rfl⟩

theorem MulticastState.OneFile.isolated (hone : s.OneFile) (hs : s.WellFormed srv t) :
    srv.Isolated t s e := by
  intro key dest packet hsent key' session hsession hclient _
  have hmove : ServerMove srv t s e (srv.step t s e) := MulticastServer.step_move
  generalize srv.step t s e = s' at hmove hsent
  cases hmove with
  | idle _ _ hlog | creates _ _ _ hlog =>
      rw [hlog, List.drop_length] at hsent
      cases hsent
  | joins _ _ _ _ _ _ hlog =>
      rw [hlog, List.drop_left] at hsent
      split_ifs at hsent
      · simp at hsent
      · cases hsent
  | @moves i io τ₁ τ₂ session₁ session₂ records hevent hτ₁ hsession₁ hmove hsessions htransfers
      hlog =>
      rw [hlog, List.drop_left] at hsent
      have hmem := List.mem_of_getElem? hτ₁
      obtain ⟨placed, hplaced, hpl⟩ := hs.placed τ₁ hmem
      rw [hsession₁] at hplaced
      cases hplaced
      obtain ⟨-, -, hrun, hblock⟩ := hmove.sends_block hpl hsent
      -- the transfer that sends is running, so its session is live as well
      have hsame := hone τ₁.key key' session₁ session hsession₁ hsession
        (Or.inr ⟨τ₁, hmem, rfl, hrun⟩) (Or.inl ⟨session, hsession, hclient⟩)
      rwa [hsame.sessionData, hsame.2.2]

/-- **One file at a time.** In a run in which every client that gets into a session finds no
live session for another file, all DATA packets carry blocks of the file that those who listen
have asked for. -/
theorem isolated_of_soleFile (srv : MulticastServer) (t : Posix.Tree)
    (events : List MulticastEvent) (hsole : Along (srv.step t) MulticastState.SoleFile {} events) :
    Along (srv.step t) (srv.Isolated t) {} events := by
  refine @along_of_invariant _ _ (srv.step t) (fun s => s.WellFormed srv t ∧ s.OneFile) _ _
    (fun s e hs hok => ?_) events {} ⟨MulticastState.wellFormed_start, ?_⟩ hsole
  · have hmove : ServerMove srv t s e (srv.step t s e) := MulticastServer.step_move
    exact ⟨⟨hs.1.step hmove, hs.2.step hs.1 hmove hok⟩, hs.2.isolated hs.1⟩
  · intro key key' session session' h
    simp at h

end OneFile

/-! ## One file, and two -/

/-- The first client of a server without sessions finds no live one. -/
theorem soleFile_of_empty {s : MulticastState} (htransfers : s.transfers = [])
    (hclients : ∀ key session, s.sessions.lookup key = some session → size session.clients = 0)
    (e : MulticastEvent) : s.SoleFile e := by
  rintro j now sent key addr session - - - - key' session' hsession' hlive
  rcases hlive with ⟨session, hsession, a, ha⟩ | ⟨τ, hτ, -⟩
  · exact absurd ha (size_eq_zero.mp (hclients key' session hsession) a)
  · rw [htransfers] at hτ
    cases hτ

/-- One client receives `a`. -/
theorem isolated_of_soleFile_single :
    Along (plainServer.step twoFileTree) (plainServer.Isolated twoFileTree) {}
      (joinEvents "a" 1 ++ [.transfer 0 (.opened true), .transfer 0 (.sent true)]) := by
  refine isolated_of_soleFile plainServer twoFileTree _ ⟨?_, ?_, ?_, ?_, trivial⟩
  · intro j now sent key addr session h
    cases h
  · refine soleFile_of_empty (by decide +kernel) (fun key session h => ?_) _
    rw [MulticastServer.step] at h
    have hone : (plainServer.requestStep twoFileTree {} ⟨"a", .octet, {}, ⟨.v4 1, 2000⟩,
        by decide⟩).sessions.entries.all fun e => size e.2.clients = 0 := by decide +kernel
    exact of_decide_eq_true (List.all_eq_true.mp hone ⟨key, session⟩ (AList.mem_lookup_iff.mp h))
  · intro j now sent key addr session h
    cases h
  · intro j now sent key addr session h
    cases h

/-- Two clients ask for different files. -/
def twoFileRun : List MulticastEvent :=
  joinEvents "a" 1 ++ joinEvents "b" 2 ++ [.transfer 0 (.opened true)]

/-- The client of `b` is sent the block of `a`. -/
theorem two_files_not_isolated :
    ¬plainServer.Isolated twoFileTree (plainServer.run twoFileTree twoFileRun)
      (.transfer 0 (.sent true)) := by
  intro h
  have hsent : MulticastRecord.data "a:Octet" ⟨.v4 0xe0000101, 1758⟩ (dataPacket 1 [97]) ∈
      (plainServer.step twoFileTree (plainServer.run twoFileTree twoFileRun)
        (.transfer 0 (.sent true))).log.drop
          (plainServer.run twoFileTree twoFileRun).log.length := by
    decide +kernel
  have hb : ((plainServer.run twoFileTree twoFileRun).sessions.lookup "b:Octet").map (fun session =>
      (session.clients.keys, session.group, plainServer.sessionData twoFileTree session,
        session.options.blockSize))
      = some ([⟨.v4 2, 2000⟩], ⟨.v4 0xe0000101, 1758⟩, [98], 512) := by decide +kernel
  obtain ⟨session, hsession, hfields⟩ := Option.map_eq_some_iff.mp hb
  simp only [Prod.mk.injEq] at hfields
  obtain ⟨hclients, hgroup, hdata, hsize⟩ := hfields
  have hblock := h _ _ _ hsent "b:Octet" session hsession
    ⟨⟨.v4 2, 2000⟩, by rw [AList.mem_keys, hclients]; exact List.mem_singleton_self _⟩ hgroup
  rw [hdata, hsize] at hblock
  -- the file `b` has one block, and it is another one
  obtain ⟨k, hk, hpacket⟩ := hblock
  have hzero : k = 0 := by
    rw [List.length_singleton] at hk
    omega
  subst hzero
  exact absurd hpacket (by decide +kernel)

end UsgTftp
