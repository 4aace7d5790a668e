import UsgTftp.Multicast.Server

set_option autoImplicit false

/-! # Multicast requests that fail

A request that fails before it has its client added leaves no trace. One whose OACK cannot be sent
fails after that: its client stays in the session, as its master if it was the first one, and the
transfer that only a first client starts is never started (`failed_request_traceless_iff`).
-/

namespace UsgTftp

open HashTable Posix Posix.Path

/-! ## A request by itself -/

section

variable (srv : MulticastServer) (t : Tree)

/-- `handle_multicast_request`; `sent` is the result of `send_to`. -/
def MulticastServer.handleMulticastRequest (s : MulticastState) (r : MulticastRequest) (now : Nat)
    (sent : Except String Unit) : MulticastState × Except TftpError Unit :=
  match srv.validateFilePath t r.filename with
  | .error e => (s, .error e)
  | .ok filePath =>
      match metadata srv.env t filePath with
      | .error _ => (s, .error (.tftp "File not found"))
      | .ok _ =>
          let key := sessionKey r.filename r.mode
          let s := { s with
            sessions := srv.getOrCreateSession s.sessions key filePath r.mode r.options }
          match s.sessions.lookup key with
          | none => (s, .ok ())
          | some session =>
              match session.addClient r.clientAddr now with
              | .error e => (s, .error e)
              | .ok (session, isMaster) =>
                  let s := { s with sessions := s.sessions.insert key session }
                  match sent with
                  | .error message => (s, .error (.io message))
                  | .ok () =>
                      ({ s with
                        log := s.log ++
                          [.oack key r.clientAddr (srv.oackPacket session isMaster)]
                        transfers := if isMaster then s.transfers ++ [⟨key, [], .spawned⟩]
                          else s.transfers }, .ok ())

/-- The state before this client's part: its session is there. -/
def MulticastServer.openSession (s : MulticastState) (r : MulticastRequest) (filePath : Path) :
    MulticastState :=
  { s with
    sessions := srv.getOrCreateSession s.sessions (sessionKey r.filename r.mode) filePath r.mode
      r.options }

variable {srv t} {s : MulticastState} {r : MulticastRequest}

theorem MulticastServer.lookup_openSession (filePath : Path) :
    ∃ session, (srv.openSession s r filePath).sessions.lookup (sessionKey r.filename r.mode)
      = some session := by
  rw [openSession, getOrCreateSession]
  cases h : s.sessions.lookup (sessionKey r.filename r.mode) with
  | none => exact ⟨_, AList.lookup_insert _⟩
  | some session => exact ⟨session, h⟩

/-- By itself, a request takes its two steps one after the other. -/
theorem MulticastServer.handleMulticastRequest_steps (now : Nat) (sent : Except String Unit) :
    (srv.handleMulticastRequest t s r now sent).1
      = srv.step t (srv.step t s (.request r)) (.join s.joining.length now sent.toBool) := by
  have hnone : s.joining[s.joining.length]? = none := List.getElem?_eq_none le_rfl
  rw [handleMulticastRequest, step, requestStep]
  cases srv.validateFilePath t r.filename with
  | error e => simp only [step, hnone]
  | ok filePath =>
      cases hmeta : metadata srv.env t filePath with
      | error e => simp only [hmeta, step, hnone]
      | ok kind =>
          obtain ⟨session, hsession⟩ := srv.lookup_openSession (s := s) (r := r) filePath
          simp only [openSession] at hsession
          simp only [hmeta, step, List.getElem?_concat_length, joinStep, hsession,
            List.eraseIdx_append_of_length_le le_rfl, Nat.sub_self, List.eraseIdx_cons_zero,
            List.append_nil]
          cases hadd : session.addClient r.clientAddr now with
          | error e => rfl
          | ok result =>
              obtain ⟨session', isMaster⟩ := result
              cases sent <;> rfl

end

/-! ## What a failed request leaves behind -/

def MulticastState.Member (s : MulticastState) (key : String) (a : SocketAddr) : Prop :=
  ∃ session, s.sessions.lookup key = some session ∧ a ∈ session.clients

def MulticastState.master (s : MulticastState) (key : String) : Option SocketAddr :=
  (s.sessions.lookup key).bind (·.masterClient)

/-- Every session has the same clients and the same master, and the same transfers run. A session
that nobody has joined counts as none. -/
structure MulticastState.NoTrace (s s' : MulticastState) : Prop where
  members : ∀ key a, s'.Member key a ↔ s.Member key a
  master : ∀ key, s'.master key = s.master key
  transfers : s'.transfers = s.transfers

/-- The request gets as far as its OACK: there is a file, and room in its session. -/
structure MulticastServer.Admits (srv : MulticastServer) (t : Tree) (s : MulticastState)
    (r : MulticastRequest) : Prop where
  file : ∃ filePath, srv.validateFilePath t r.filename = .ok filePath ∧
    (metadata srv.env t filePath).toBool = true
  room : match s.sessions.lookup (sessionKey r.filename r.mode) with
    | none => 0 < srv.config.maxClients.toNat
    | some session => size session.clients < session.maxClients.toNat

namespace MulticastState

variable {srv : MulticastServer} {t : Tree} {s s' s'' : MulticastState} {r : MulticastRequest}

theorem NoTrace.refl (s : MulticastState) : s.NoTrace s :=
  ⟨fun _ _ => Iff.rfl, fun _ => rfl, rfl⟩

theorem NoTrace.trans_iff (h : s.NoTrace s') : s.NoTrace s'' ↔ s'.NoTrace s'' := by
  constructor
  · rintro ⟨hmembers, hmaster, htransfers⟩
    exact ⟨fun key a => (hmembers key a).trans (h.members key a).symm,
      fun key => (hmaster key).trans (h.master key).symm, htransfers.trans h.transfers.symm⟩
  · rintro ⟨hmembers, hmaster, htransfers⟩
    exact ⟨fun key a => (hmembers key a).trans (h.members key a),
      fun key => (hmaster key).trans (h.master key), htransfers.trans h.transfers⟩

/-- A session that is new has no clients. -/
theorem noTrace_openSession (srv : MulticastServer) (s : MulticastState) (r : MulticastRequest)
    (filePath : Path) : s.NoTrace (srv.openSession s r filePath) := by
  rw [MulticastServer.openSession, MulticastServer.getOrCreateSession]
  cases hnew : s.sessions.lookup (sessionKey r.filename r.mode) with
  | some session => exact .refl s
  | none =>
      refine ⟨fun key a => ?_, fun key => ?_, rfl⟩
      · simp only [Member, lookup_insert_eq]
        by_cases hkey : key = sessionKey r.filename r.mode
        · subst hkey
          simp [hnew, MulticastSession.new]
        · simp [hkey]
      · simp only [master, lookup_insert_eq]
        by_cases hkey : key = sessionKey r.filename r.mode
        · subst hkey
          simp [hnew, MulticastSession.new]
        · simp [hkey]

/-- **A client is added** without a trace just if it has been a client before. -/
theorem noTrace_addClient {key : String} {session session' : MulticastSession} {addr : SocketAddr}
    {now : Nat} {isMaster : Bool} (hsession : s.sessions.lookup key = some session)
    (hadd : session.addClient addr now = .ok (session', isMaster)) :
    s.NoTrace { s with sessions := s.sessions.insert key session' } ↔ s.Member key addr := by
  obtain ⟨-, hmaster, rfl⟩ := MulticastSession.addClient_eq_ok.mp hadd
  constructor
  · intro h
    exact (h.members key addr).mp ⟨_, AList.lookup_insert _, by simp⟩
  · rintro ⟨session₁, h₁, hmem⟩
    rw [hsession] at h₁
    cases h₁
    have hpos := size_pos_of_mem hmem
    obtain rfl : isMaster = false := by
      rw [hmaster, decide_eq_false_iff_not]
      omega
    refine ⟨fun key' a => ?_, fun key' => ?_, rfl⟩
    · simp only [Member, lookup_insert_eq]
      by_cases hkey : key' = key
      · subst hkey
        simp only [if_true, hsession, Option.some.injEq, exists_eq_left', AList.mem_insert,
          or_iff_right_iff_imp]
        rintro rfl
        exact hmem
      · simp [hkey]
    · simp only [master, lookup_insert_eq]
      by_cases hkey : key' = key
      · subst hkey
        simp [hsession]
      · simp [hkey]

theorem member_iff {key : String} {session : MulticastSession}
    (hsession : s.sessions.lookup key = some session) (a : SocketAddr) :
    s.Member key a ↔ a ∈ session.clients := by
  simp [Member, hsession]

end MulticastState

/-- Once there is a session, what counts is whether it has room. -/
theorem MulticastServer.admits_iff {srv : MulticastServer} {t : Tree} {s : MulticastState}
    {r : MulticastRequest} {filePath : Path}
    (hfile : srv.validateFilePath t r.filename = .ok filePath)
    (hmeta : (metadata srv.env t filePath).toBool = true) {session : MulticastSession}
    (hsession : (srv.openSession s r filePath).sessions.lookup (sessionKey r.filename r.mode)
      = some session) :
    srv.Admits t s r ↔ size session.clients < session.maxClients.toNat := by
  have hroom : (match s.sessions.lookup (sessionKey r.filename r.mode) with
      | none => 0 < srv.config.maxClients.toNat
      | some session => size session.clients < session.maxClients.toNat) ↔
      size session.clients < session.maxClients.toNat := by
    rw [openSession, getOrCreateSession] at hsession
    cases hold : s.sessions.lookup (sessionKey r.filename r.mode) with
    | none =>
        simp only [hold, AList.lookup_insert, Option.some.injEq] at hsession
        subst hsession
        rfl
    | some old =>
        simp only [hold, Option.some.injEq] at hsession
        subst hsession
        rfl
  rw [← hroom]
  exact ⟨fun h => h.room, fun h => ⟨⟨filePath, hfile, hmeta⟩, h⟩⟩

/-- **A failed request** leaves no trace unless it fails for its OACK and the client is new. -/
theorem failed_request_traceless_iff (srv : MulticastServer) (t : Tree) (s : MulticastState)
    (r : MulticastRequest) (now : Nat) (sent : Except String Unit) (e : TftpError)
    (h : (srv.handleMulticastRequest t s r now sent).2 = .error e) :
    s.NoTrace (srv.handleMulticastRequest t s r now sent).1 ↔
      (srv.Admits t s r → s.Member (sessionKey r.filename r.mode) r.clientAddr) := by
  unfold MulticastServer.handleMulticastRequest at h ⊢
  cases hfile : srv.validateFilePath t r.filename with
  | error e' =>
      refine iff_of_true (.refl s) fun hadmits => ?_
      obtain ⟨filePath, hvalid, -⟩ := hadmits.file
      rw [hfile] at hvalid
      cases hvalid
  | ok filePath =>
      simp only [hfile] at h ⊢
      cases hmeta : metadata srv.env t filePath with
      | error e' =>
          refine iff_of_true (.refl s) fun hadmits => ?_
          obtain ⟨filePath', hvalid, hreadable⟩ := hadmits.file
          rw [hfile] at hvalid
          cases hvalid
          rw [hmeta] at hreadable
          cases hreadable
      | ok kind =>
          have hopen := MulticastState.noTrace_openSession srv s r filePath
          obtain ⟨session, hsession⟩ := srv.lookup_openSession (s := s) (r := r) filePath
          rw [hopen.trans_iff, ← hopen.members]
          rw [MulticastServer.admits_iff hfile (by rw [hmeta]; rfl) hsession]
          simp only [MulticastServer.openSession] at hsession ⊢
          simp only [hmeta, hsession] at h ⊢
          cases hadd : session.addClient r.clientAddr now with
          | error e' =>
              -- the session is full
              refine iff_of_true (.refl _) fun hroom => ?_
              rw [MulticastSession.addClient_eq_ok.mpr ⟨hroom, rfl, rfl⟩] at hadd
              cases hadd
          | ok result =>
              obtain ⟨session', isMaster⟩ := result
              have hsize := (MulticastSession.addClient_eq_ok.mp hadd).1
              simp only [hadd] at h ⊢
              cases sent with
              | ok u => cases h
              | error message =>
                  rw [MulticastState.noTrace_addClient hsession hadd]
                  exact ⟨fun hmem _ => hmem, fun hmem => hmem hsize⟩

/-- Where a session has no clients, the next one becomes its master and starts the transfer. -/
theorem MulticastServer.first_request_starts {srv : MulticastServer} {t : Tree}
    {s : MulticastState} {r : MulticastRequest} (hadmits : srv.Admits t s r)
    (hnobody : ∀ a, ¬s.Member (sessionKey r.filename r.mode) a) (now : Nat) :
    (srv.handleMulticastRequest t s r now (.ok ())).2 = .ok () ∧
      (srv.handleMulticastRequest t s r now (.ok ())).1.master (sessionKey r.filename r.mode)
        = some r.clientAddr ∧
      (srv.handleMulticastRequest t s r now (.ok ())).1.transfers
        = s.transfers ++ [⟨sessionKey r.filename r.mode, [], .spawned⟩] := by
  obtain ⟨filePath, hfile, hreadable⟩ := hadmits.file
  obtain ⟨session, hsession⟩ := srv.lookup_openSession (s := s) (r := r) filePath
  have hroom := (admits_iff hfile hreadable hsession).mp hadmits
  have hempty : size session.clients = 0 := by
    rw [size_eq_zero]
    intro a ha
    have hopen := MulticastState.noTrace_openSession srv s r filePath
    exact hnobody a ((hopen.members _ a).mp ((MulticastState.member_iff hsession a).mpr ha))
  have hadd := (@MulticastSession.addClient_eq_ok session _ r.clientAddr now _).mpr
    ⟨hroom, rfl, rfl⟩
  cases hmeta : metadata srv.env t filePath with
  | error e =>
      rw [hmeta] at hreadable
      cases hreadable
  | ok kind =>
      simp only [openSession] at hsession
      simp only [hempty, decide_true, if_true] at hadd
      simp [handleMulticastRequest, hfile, hmeta, hsession, hadd, MulticastState.master]

def requestFrom (n : Nat) : MulticastRequest :=
  ⟨"a", .octet, {}, ⟨.v4 (BitVec.ofNat 32 n), 2000⟩, default_blockSize_range⟩

/-- A server on which the OACK of the first client of `a` could not be sent. -/
def afterLostOack : MulticastState × Except TftpError Unit :=
  plainServer.handleMulticastRequest twoFileTree {} (requestFrom 1) 0 (.error "unreachable")

theorem failed_request_traceless_iff_again :
    afterLostOack.1.NoTrace (plainServer.handleMulticastRequest twoFileTree afterLostOack.1
        (requestFrom 1) 1 (.error "unreachable")).1 ↔
      (plainServer.Admits twoFileTree afterLostOack.1 (requestFrom 1) →
        afterLostOack.1.Member "a:Octet" (requestFrom 1).clientAddr) :=
  failed_request_traceless_iff plainServer twoFileTree afterLostOack.1 (requestFrom 1) 1
    (.error "unreachable") (.io "unreachable") (by rfl)

/-- **A master that nobody has told.** The first client stays although its request has failed; the
next one is accepted, but is not the master, and no transfer is ever started for it. -/
theorem unreachable_master_stays :
    let later := plainServer.handleMulticastRequest twoFileTree afterLostOack.1 (requestFrom 2) 1
      (.ok ())
    afterLostOack.2 = .error (.io "unreachable") ∧
      ¬({} : MulticastState).NoTrace afterLostOack.1 ∧
      later.2 = .ok () ∧ later.1.master "a:Octet" = some (requestFrom 1).clientAddr ∧
      later.1.transfers = [] := by
  refine ⟨by rfl, fun h => ?_, by rfl, by decide +kernel, by decide +kernel⟩
  have hmaster : afterLostOack.1.master "a:Octet" = some (requestFrom 1).clientAddr := by
    decide +kernel
  rw [h.master] at hmaster
  cases hmaster

end UsgTftp
