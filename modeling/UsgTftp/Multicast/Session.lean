import UsgTftp.Server.Config
import UsgTftp.Lib.HashTable

set_option autoImplicit false

/-! # Multicast sessions

A session is the group of clients that receive one file together. It keeps a state for each
client, the address of the master client, and the numbers of the blocks that are to be sent
again.

The result on a single session is `run_keeps_master`: whatever methods are called in whatever
order, at whatever times and with whatever iteration order of the maps, the session stays
within its bound, has a master exactly while it has clients, and loses exactly its idle
clients. `rejoinIdempotent_iff` is about a client that asks again. It is taken for a new one,
so that its acknowledgements and its part as the master are lost, and on a full session it is
refused.
-/

namespace UsgTftp

open HashTable

/-! ## State -/

structure ClientState where
  addr : SocketAddr
  /-- The block numbers this client has acknowledged. -/
  ackedBlocks : KeySet UInt16
  /-- In nanoseconds. -/
  lastSeen : Nat
  isMaster : Bool

def ClientState.new (addr : SocketAddr) (isMaster : Bool) (now : Nat) : ClientState :=
  ⟨addr, ∅, now, isMaster⟩

def ClientState.markAcked (c : ClientState) (blockNum : UInt16) (now : Nat) : ClientState :=
  { c with ackedBlocks := c.ackedBlocks.insert blockNum (), lastSeen := now }

def ClientState.hasAcked (c : ClientState) (blockNum : UInt16) : Bool :=
  decide (blockNum ∈ c.ackedBlocks)

abbrev Clients := Table SocketAddr ClientState

structure MulticastSession where
  filePath : Posix.Path
  mode : TransferMode
  options : TftpOptions
  multicastAddr : IpAddr
  multicastPort : UInt16
  clients : Clients
  maxClients : UInt64
  masterClient : Option SocketAddr
  /-- The numbers of the blocks to be sent again. -/
  retransmitQueue : KeySet UInt16

namespace MulticastSession

def new (filePath : Posix.Path) (mode : TransferMode) (options : TftpOptions)
    (multicastAddr : IpAddr) (multicastPort : UInt16) (maxClients : UInt64) : MulticastSession where
  filePath := filePath
  mode := mode
  options := options
  multicastAddr := multicastAddr
  multicastPort := multicastPort
  clients := ∅
  maxClients := maxClients
  masterClient := none
  retransmitQueue := ∅

/-! ## Methods -/

/-- `add_client`, with whether the client is the master. -/
def addClient (s : MulticastSession) (addr : SocketAddr) (now : Nat) :
    Except TftpError (MulticastSession × Bool) :=
  match UsgTftp.addClient s.maxClients s.clients.keys with
  | .error e => .error e
  | .ok isMaster =>
      .ok ({ s with
        masterClient := if isMaster then some addr else s.masterClient
        clients := s.clients.insert addr (.new addr isMaster now) }, isMaster)

def recordAck (s : MulticastSession) (addr : SocketAddr) (blockNum : UInt16) (now : Nat) :
    MulticastSession :=
  { s with clients := modify addr (·.markAcked blockNum now) s.clients }

/-- `all_clients_acked`; the order of the clients does not matter to it. -/
def allClientsAcked (s : MulticastSession) (blockNum : UInt16) : Bool :=
  if s.clients.keys.isEmpty then false
  else s.clients.entries.all fun e => e.2.hasAcked blockNum

def queueRetransmit (s : MulticastSession) (blockNum : UInt16) : MulticastSession :=
  { s with retransmitQueue := s.retransmitQueue.insert blockNum () }

/-- `take_retransmit_queue`. -/
def takeRetransmitQueue (s : MulticastSession) (order : Order UInt16 Unit) :
    MulticastSession × List UInt16 :=
  ({ s with retransmitQueue := ∅ }, (order.iter s.retransmitQueue).map (·.1))

def electNewMaster (s : MulticastSession) (order : Order SocketAddr ClientState) :
    MulticastSession :=
  let clients :=
    match s.masterClient with
    | some oldMaster => modify oldMaster (fun c => { c with isMaster := false }) s.clients
    | none => s.clients
  match (order.iter clients).head? with
  | some ⟨newMaster, _⟩ =>
      { s with
        masterClient := some newMaster
        clients := modify newMaster (fun c => { c with isMaster := true }) clients }
  | none => { s with masterClient := none, clients := clients }

/-- The test for an inactive client; `duration_since` does not go below zero. -/
def inactive (timeoutSecs : UInt64) (now : Nat) (c : ClientState) : Bool :=
  decide (timeoutSecs.toNat * 10 ^ 9 < now - c.lastSeen)

/-- One turn of the loop of `remove_inactive_clients`. -/
def removeClient (order : Order SocketAddr ClientState) (s : MulticastSession) (addr : SocketAddr) :
    MulticastSession :=
  let s := { s with clients := s.clients.erase addr }
  if some addr = s.masterClient then s.electNewMaster order else s

def inactiveClients (s : MulticastSession) (order : Order SocketAddr ClientState)
    (timeoutSecs : UInt64) (now : Nat) : List SocketAddr :=
  ((order.iter s.clients).filter fun e => inactive timeoutSecs now e.2).map (·.2.addr)

/-- `remove_inactive_clients`. The maps that are visited during one call differ, so that one
`order` stands for any choice at each of them. -/
def removeInactiveClients (s : MulticastSession) (order : Order SocketAddr ClientState)
    (timeoutSecs : UInt64) (now : Nat) : MulticastSession :=
  (s.inactiveClients order timeoutSecs now).foldl (removeClient order) s

/-- A call of a method, with what it reads from the clock and from the hash maps. -/
inductive Call where
  | addClient (addr : SocketAddr) (now : Nat)
  | recordAck (addr : SocketAddr) (blockNum : UInt16) (now : Nat)
  | queueRetransmit (blockNum : UInt16)
  | takeRetransmitQueue (order : Order UInt16 Unit)
  | removeInactiveClients (order : Order SocketAddr ClientState) (timeoutSecs : UInt64) (now : Nat)

/-- A call; an `add_client` that fails changes nothing. -/
def call (s : MulticastSession) : Call → MulticastSession
  | .addClient addr now =>
      match s.addClient addr now with
      | .ok (s', _) => s'
      | .error _ => s
  | .recordAck addr blockNum now => s.recordAck addr blockNum now
  | .queueRetransmit blockNum => s.queueRetransmit blockNum
  | .takeRetransmitQueue order => (s.takeRetransmitQueue order).1
  | .removeInactiveClients order timeoutSecs now => s.removeInactiveClients order timeoutSecs now

def run (s : MulticastSession) (calls : List Call) : MulticastSession := calls.foldl call s

/-! ## The invariant -/

/-- What holds of a session between calls. -/
structure Sound (s : MulticastSession) : Prop where
  bound : size s.clients ≤ s.maxClients.toNat
  master_mem : ∀ m, s.masterClient = some m → m ∈ s.clients
  master_none : s.masterClient = none → size s.clients = 0
  key : ∀ a c, s.clients.lookup a = some c → c.addr = a
  /-- Only the master is flagged as the master. The converse does not hold. -/
  flag : ∀ a c, s.clients.lookup a = some c → c.isMaster = true → s.masterClient = some a

theorem Sound.master_eq_none_iff {s : MulticastSession} (h : s.Sound) :
    s.masterClient = none ↔ size s.clients = 0 := by
  refine ⟨h.master_none, fun hz => ?_⟩
  cases hm : s.masterClient with
  | none => rfl
  | some m => exact absurd (h.master_mem m hm) (size_eq_zero.mp hz m)

theorem new_sound (filePath : Posix.Path) (mode : TransferMode) (options : TftpOptions)
    (multicastAddr : IpAddr) (multicastPort : UInt16) (maxClients : UInt64) :
    (new filePath mode options multicastAddr multicastPort maxClients).Sound where
  bound := Nat.zero_le _
  master_mem := nofun
  master_none := fun _ => rfl
  key := fun a c h => by simp [new] at h
  flag := fun a c h => by simp [new] at h

/-! ### Adding a client -/

/-- `add_client` fails on a full session, whoever asks. -/
theorem addClient_eq_ok {s s' : MulticastSession} {addr : SocketAddr} {now : Nat} {b : Bool} :
    s.addClient addr now = .ok (s', b) ↔
      size s.clients < s.maxClients.toNat ∧ b = decide (size s.clients = 0) ∧
        s' = { s with
          masterClient := if b then some addr else s.masterClient
          clients := s.clients.insert addr (.new addr b now) } := by
  have hb : s.clients.keys.isEmpty = decide (size s.clients = 0) := by
    rw [size_eq_keys]
    cases s.clients.keys <;> rfl
  rw [addClient, UsgTftp.addClient, ← size_eq_keys, hb]
  by_cases hfull : size s.clients ≥ s.maxClients.toNat
  · rw [if_pos hfull]
    constructor
    · intro h; cases h
    · intro h; omega
  · rw [if_neg hfull]
    constructor
    · intro h
      injection h with h
      injection h with h₁ h₂
      subst h₂
      exact ⟨by omega, rfl, h₁.symm⟩
    · rintro ⟨-, rfl, rfl⟩
      rfl

theorem Sound.addClient {s s' : MulticastSession} {addr : SocketAddr} {now : Nat} {b : Bool}
    (hs : s.Sound) (h : s.addClient addr now = .ok (s', b)) : s'.Sound := by
  obtain ⟨hroom, hb, rfl⟩ := addClient_eq_ok.mp h
  refine ⟨?_, ?_, ?_, ?_, ?_⟩
  · have := size_insert_le addr (ClientState.new addr b now) s.clients
    exact le_trans this hroom
  · intro m hm
    rw [AList.mem_insert]
    cases b with
    | true => exact Or.inl (Option.some.inj hm).symm
    | false => exact Or.inr (hs.master_mem m hm)
  · intro hm
    cases b with
    | true => cases hm
    | false =>
        -- a session that was not empty had a master
        have := hs.master_none hm
        simp [this] at hb
  · intro a c hc
    simp only [lookup_insert_eq] at hc
    split_ifs at hc with ha
    · cases hc
      exact ha.symm
    · exact hs.key a c hc
  · intro a c hc hflag
    simp only [lookup_insert_eq] at hc
    split_ifs at hc with ha
    · cases hc
      cases b with
      | true => rw [ha]; rfl
      | false => cases hflag
    · -- there is another client, so the new one is not the master
      have hpos := size_pos_of_mem (mem_iff_lookup.mpr ⟨c, hc⟩)
      have : b = false := by
        rw [hb, decide_eq_false_iff_not]
        omega
      subst this
      exact hs.flag a c hc hflag

/-! ### Acknowledgements -/

theorem lookup_recordAck {s : MulticastSession} {addr a : SocketAddr} {n : UInt16} {now : Nat}
    {c : ClientState} (h : (s.recordAck addr n now).clients.lookup a = some c) :
    ∃ c₀, s.clients.lookup a = some c₀ ∧ c.addr = c₀.addr ∧ c.isMaster = c₀.isMaster := by
  simp only [recordAck, lookup_modify] at h
  split_ifs at h with ha
  · obtain ⟨c₀, h₀, rfl⟩ := Option.map_eq_some_iff.mp h
    exact ⟨c₀, h₀, rfl, rfl⟩
  · exact ⟨c, h, rfl, rfl⟩

theorem Sound.recordAck {s : MulticastSession} (hs : s.Sound) (addr : SocketAddr) (n : UInt16)
    (now : Nat) : (s.recordAck addr n now).Sound where
  bound := by simpa [MulticastSession.recordAck] using hs.bound
  master_mem := fun m hm => by simpa [MulticastSession.recordAck] using hs.master_mem m hm
  master_none := fun hm => by simpa [MulticastSession.recordAck] using hs.master_none hm
  key := fun a c hc => by
    obtain ⟨c₀, h₀, haddr, -⟩ := lookup_recordAck hc
    rw [haddr]
    exact hs.key a c₀ h₀
  flag := fun a c hc hflag => by
    obtain ⟨c₀, h₀, -, hrole⟩ := lookup_recordAck hc
    exact hs.flag a c₀ h₀ (hrole ▸ hflag)

/-! ### Removing clients -/

section Removal

variable {order : Order SocketAddr ClientState} {s : MulticastSession} {addr : SocketAddr}

/-- **One removal.** The election, if there is one, sees the clients that remain, and the old
master is no longer among them. -/
theorem removeClient_cases (order : Order SocketAddr ClientState) (s : MulticastSession)
    (addr : SocketAddr) :
    (s.masterClient ≠ some addr ∧
      s.removeClient order addr = { s with clients := s.clients.erase addr }) ∨
    (s.masterClient = some addr ∧ size (s.clients.erase addr) = 0 ∧
      s.removeClient order addr =
        { s with masterClient := none, clients := s.clients.erase addr }) ∨
    (s.masterClient = some addr ∧ ∃ m, m ∈ s.clients.erase addr ∧
      s.removeClient order addr =
        { s with
          masterClient := some m
          clients := modify m (fun c => { c with isMaster := true }) (s.clients.erase addr) }) := by
  unfold removeClient
  by_cases hm : some addr = s.masterClient
  · right
    have hgone : addr ∉ s.clients.erase addr := by simp [AList.mem_erase]
    simp only [electNewMaster, ← hm, if_true, modify_of_notMem hgone]
    cases hiter : (order.iter (s.clients.erase addr)).head? with
    | none =>
        left
        rw [List.head?_eq_none_iff, Order.iter_eq_nil] at hiter
        exact ⟨trivial, hiter, rfl⟩
    | some e =>
        right
        have hmem : e ∈ order.iter (s.clients.erase addr) := List.mem_of_head? hiter
        exact ⟨trivial, e.1, mem_iff_lookup.mpr ⟨e.2, Order.mem_iter.mp hmem⟩, rfl⟩
  · left
    refine ⟨fun h => hm h.symm, ?_⟩
    simp only
    rw [if_neg hm]

theorem mem_removeClient {a : SocketAddr} :
    a ∈ (s.removeClient order addr).clients ↔ a ≠ addr ∧ a ∈ s.clients := by
  rcases removeClient_cases order s addr with ⟨-, h⟩ | ⟨-, -, h⟩ | ⟨-, m, -, h⟩ <;>
    rw [h] <;> simp [AList.mem_erase]

/-- A client that remains keeps its state, up to its role. -/
theorem lookup_removeClient {a : SocketAddr} {c : ClientState}
    (hc : (s.removeClient order addr).clients.lookup a = some c) :
    ∃ c₀, s.clients.lookup a = some c₀ ∧ c = { c₀ with isMaster := c.isMaster } := by
  have herase : ∀ c₀, (s.clients.erase addr).lookup a = some c₀ →
      s.clients.lookup a = some c₀ := by
    intro c₀ h₀
    rw [lookup_erase_eq] at h₀
    split_ifs at h₀
    exact h₀
  rcases removeClient_cases order s addr with ⟨-, h⟩ | ⟨-, -, h⟩ | ⟨-, m, -, h⟩
  · rw [h] at hc
    exact ⟨c, herase c hc, rfl⟩
  · rw [h] at hc
    exact ⟨c, herase c hc, rfl⟩
  · rw [h] at hc
    simp only [lookup_modify] at hc
    split_ifs at hc
    · obtain ⟨c₀, h₀, rfl⟩ := Option.map_eq_some_iff.mp hc
      exact ⟨c₀, herase c₀ h₀, rfl⟩
    · exact ⟨c, herase c hc, rfl⟩

/-- What `remove_inactive_clients` does not touch. -/
def SameTransfer (s s' : MulticastSession) : Prop :=
  s'.filePath = s.filePath ∧ s'.mode = s.mode ∧ s'.options = s.options ∧
    s'.multicastAddr = s.multicastAddr ∧ s'.multicastPort = s.multicastPort ∧
    s'.maxClients = s.maxClients

theorem SameTransfer.refl (s : MulticastSession) : s.SameTransfer s :=
  ⟨rfl, rfl, rfl, rfl, rfl, rfl⟩

theorem SameTransfer.trans {s₁ s₂ s₃ : MulticastSession} (h : s₁.SameTransfer s₂)
    (h' : s₂.SameTransfer s₃) : s₁.SameTransfer s₃ := by
  obtain ⟨h1, h2, h3, h4, h5, h6⟩ := h
  obtain ⟨h1', h2', h3', h4', h5', h6'⟩ := h'
  exact ⟨h1'.trans h1, h2'.trans h2, h3'.trans h3, h4'.trans h4, h5'.trans h5, h6'.trans h6⟩

theorem removeClient_frame : s.SameTransfer (s.removeClient order addr) ∧
    (s.removeClient order addr).retransmitQueue = s.retransmitQueue := by
  rcases removeClient_cases order s addr with ⟨-, h⟩ | ⟨-, -, h⟩ | ⟨-, m, -, h⟩ <;>
    rw [h] <;> exact ⟨.refl _, rfl⟩

theorem Sound.removeClient (hs : s.Sound) (order : Order SocketAddr ClientState)
    (addr : SocketAddr) : (s.removeClient order addr).Sound := by
  have hbound : size (s.clients.erase addr) ≤ s.maxClients.toNat :=
    le_trans (size_erase_le addr s.clients) hs.bound
  have hlookup : ∀ a c, (s.clients.erase addr).lookup a = some c →
      a ≠ addr ∧ s.clients.lookup a = some c := by
    intro a c hc
    rw [lookup_erase_eq] at hc
    split_ifs at hc with ha
    exact ⟨ha, hc⟩
  have hkey : ∀ a c, (s.removeClient order addr).clients.lookup a = some c → c.addr = a := by
    intro a c hc
    obtain ⟨c₀, h₀, hrole⟩ := lookup_removeClient hc
    rw [hrole]
    exact hs.key a c₀ h₀
  rcases removeClient_cases order s addr with ⟨hm, h⟩ | ⟨hm, hz, h⟩ | ⟨hm, m, hmem, h⟩
  · -- the master stays
    rw [h] at hkey ⊢
    refine ⟨hbound, ?_, ?_, hkey, ?_⟩
    · intro m' hm'
      refine AList.mem_erase.mpr ⟨?_, hs.master_mem m' hm'⟩
      rintro rfl
      exact hm hm'
    · intro hnone
      have := hs.master_none hnone
      exact Nat.le_zero.mp (this ▸ size_erase_le addr s.clients)
    · intro a c hc hflag
      exact hs.flag a c (hlookup a c hc).2 hflag
  · -- the last client went
    rw [h] at hkey ⊢
    have hnone : ∀ a c, (s.clients.erase addr).lookup a = some c → False :=
      fun a c hc => size_eq_zero.mp hz a (mem_iff_lookup.mpr ⟨c, hc⟩)
    exact ⟨hbound, nofun, fun _ => hz, hkey, fun a c hc => (hnone a c hc).elim⟩
  · -- a new master is elected; the old one is the only client that could be flagged
    rw [h] at hkey ⊢
    refine ⟨by simpa using hbound, ?_, nofun, hkey, ?_⟩
    · intro m' hm'
      rw [Option.some.inj hm'] at hmem
      exact mem_modify.mpr hmem
    · intro a c hc hflag
      simp only [lookup_modify] at hc
      split_ifs at hc with ha
      · rw [ha]
      · obtain ⟨hne, h₀⟩ := hlookup a c hc
        have := hs.flag a c h₀ hflag
        rw [hm] at this
        exact absurd (Option.some.inj this).symm hne

/-! The loop over the clients to remove. -/

theorem mem_removeClients {a : SocketAddr} : ∀ {gone : List SocketAddr} {s : MulticastSession},
    a ∈ (gone.foldl (removeClient order) s).clients ↔ a ∉ gone ∧ a ∈ s.clients := by
  intro gone
  induction gone with
  | nil => intro s; simp
  | cons addr rest ih =>
      intro s
      rw [List.foldl_cons, ih, mem_removeClient, List.mem_cons]
      tauto

theorem lookup_removeClients {a : SocketAddr} {c : ClientState} :
    ∀ {gone : List SocketAddr} {s : MulticastSession},
      (gone.foldl (removeClient order) s).clients.lookup a = some c →
        ∃ c₀, s.clients.lookup a = some c₀ ∧ c = { c₀ with isMaster := c.isMaster } := by
  intro gone
  induction gone with
  | nil => intro s h; exact ⟨c, h, rfl⟩
  | cons addr rest ih =>
      intro s h
      obtain ⟨c₁, h₁, hc₁⟩ := ih h
      obtain ⟨c₀, h₀, hc₀⟩ := lookup_removeClient h₁
      refine ⟨c₀, h₀, ?_⟩
      rw [hc₁, hc₀]

theorem removeClients_frame : ∀ (gone : List SocketAddr) (s : MulticastSession),
    s.SameTransfer (gone.foldl (removeClient order) s) ∧
      (gone.foldl (removeClient order) s).retransmitQueue = s.retransmitQueue := by
  intro gone
  induction gone with
  | nil => intro s; exact ⟨.refl _, rfl⟩
  | cons addr rest ih =>
      intro s
      obtain ⟨hsame, hqueue⟩ := ih (removeClient order s addr)
      rw [List.foldl_cons, hqueue]
      exact ⟨removeClient_frame.1.trans hsame, removeClient_frame.2⟩

theorem removeInactiveClients_frame (timeoutSecs : UInt64) (now : Nat) :
    s.SameTransfer (s.removeInactiveClients order timeoutSecs now) :=
  (removeClients_frame _ s).1

theorem retransmitQueue_removeInactiveClients (timeoutSecs : UInt64) (now : Nat) :
    (s.removeInactiveClients order timeoutSecs now).retransmitQueue = s.retransmitQueue :=
  (removeClients_frame _ s).2

theorem Sound.removeClients : ∀ {gone : List SocketAddr} {s : MulticastSession}, s.Sound →
    (gone.foldl (MulticastSession.removeClient order) s).Sound := by
  intro gone
  induction gone with
  | nil => intro s hs; exact hs
  | cons addr rest ih => intro s hs; exact ih (hs.removeClient order addr)

/-- The master changes only if it is removed. -/
theorem masterClient_removeClients : ∀ {gone : List SocketAddr} {s : MulticastSession},
    (∀ m, s.masterClient = some m → m ∉ gone) →
      (gone.foldl (removeClient order) s).masterClient = s.masterClient := by
  intro gone
  induction gone with
  | nil => intro s _; rfl
  | cons addr rest ih =>
      intro s hkept
      have hm : s.masterClient ≠ some addr := by
        intro h
        exact hkept addr h (List.mem_cons_self)
      have hstep : (removeClient order s addr).masterClient = s.masterClient := by
        rcases removeClient_cases order s addr with ⟨-, h⟩ | ⟨h, -⟩ | ⟨h, -⟩
        · rw [h]
        · exact absurd h hm
        · exact absurd h hm
      rw [List.foldl_cons, ih, hstep]
      intro m h
      rw [hstep] at h
      exact fun hin => hkept m h (List.mem_cons_of_mem _ hin)

/-- The clients to remove, by their keys. -/
theorem Sound.mem_inactiveClients (hs : s.Sound) {timeoutSecs : UInt64} {now : Nat}
    {a : SocketAddr} : a ∈ s.inactiveClients order timeoutSecs now ↔
      ∃ c, s.clients.lookup a = some c ∧ inactive timeoutSecs now c = true := by
  simp only [inactiveClients, List.mem_map, List.mem_filter]
  constructor
  · rintro ⟨⟨a', c⟩, ⟨hmem, hidle⟩, rfl⟩
    have hc := Order.mem_iter.mp hmem
    exact ⟨c, by rw [hs.key a' c hc]; exact hc, hidle⟩
  · rintro ⟨c, hc, hidle⟩
    exact ⟨⟨a, c⟩, ⟨Order.mem_iter.mpr hc, hidle⟩, hs.key a c hc⟩

/-- **The survivors** of `remove_inactive_clients`. -/
theorem Sound.mem_removeInactiveClients (hs : s.Sound) {timeoutSecs : UInt64} {now : Nat}
    {a : SocketAddr} : a ∈ (s.removeInactiveClients order timeoutSecs now).clients ↔
      ∃ c, s.clients.lookup a = some c ∧ now - c.lastSeen ≤ timeoutSecs.toNat * 10 ^ 9 := by
  rw [removeInactiveClients, mem_removeClients, hs.mem_inactiveClients, mem_iff_lookup]
  constructor
  · rintro ⟨hidle, c, hc⟩
    refine ⟨c, hc, ?_⟩
    by_contra hlt
    exact hidle ⟨c, hc, decide_eq_true (not_le.mp hlt)⟩
  · rintro ⟨c, hc, hle⟩
    refine ⟨?_, c, hc⟩
    rintro ⟨c', hc', hidle⟩
    rw [hc] at hc'
    cases hc'
    exact absurd hle (not_le.mpr (of_decide_eq_true hidle))

end Removal

/-! ## Runs -/

theorem Sound.call {s : MulticastSession} (hs : s.Sound) (c : Call) : (s.call c).Sound := by
  cases c with
  | addClient addr now =>
      rw [MulticastSession.call]
      split
      · rename_i s' b h
        exact hs.addClient h
      · exact hs
  | recordAck addr blockNum now => exact hs.recordAck addr blockNum now
  | queueRetransmit blockNum => exact ⟨hs.bound, hs.master_mem, hs.master_none, hs.key, hs.flag⟩
  | takeRetransmitQueue order => exact ⟨hs.bound, hs.master_mem, hs.master_none, hs.key, hs.flag⟩
  | removeInactiveClients order timeoutSecs now => exact hs.removeClients

theorem Sound.run :
    ∀ {calls : List Call} {s : MulticastSession}, s.Sound → (s.run calls).Sound := by
  intro calls
  induction calls with
  | nil => intro s hs; exact hs
  | cons c calls ih => intro s hs; exact ih (hs.call c)

theorem maxClients_call (s : MulticastSession) (c : Call) :
    (s.call c).maxClients = s.maxClients := by
  cases c with
  | addClient addr now =>
      rw [call]
      split
      · rename_i s' b h
        rw [(addClient_eq_ok.mp h).2.2]
      · rfl
  | recordAck addr blockNum now => rfl
  | queueRetransmit blockNum => rfl
  | takeRetransmitQueue order => rfl
  | removeInactiveClients order timeoutSecs now => exact (removeClients_frame _ s).1.2.2.2.2.2

theorem maxClients_run (calls : List Call) :
    ∀ s : MulticastSession, (s.run calls).maxClients = s.maxClients := by
  induction calls with
  | nil => intro s; rfl
  | cons c calls ih =>
      intro s
      calc (s.run (c :: calls)).maxClients = (s.call c).maxClients := ih _
        _ = s.maxClients := maxClients_call s c

/-- The session after any calls on a new one. -/
inductive Reachable : MulticastSession → Prop where
  | run (filePath : Posix.Path) (mode : TransferMode) (options : TftpOptions)
      (multicastAddr : IpAddr) (multicastPort : UInt16) (maxClients : UInt64) (calls : List Call) :
      Reachable ((new filePath mode options multicastAddr multicastPort maxClients).run calls)

theorem Reachable.sound {s : MulticastSession} (h : s.Reachable) : s.Sound := by
  cases h
  exact (new_sound _ _ _ _ _ _).run

/-- **Sessions keep their bound and their master**, after any calls, for any clock and any
iteration order. Of the clients exactly the idle ones are removed, the others keep their
record, and the master changes only if it was removed itself. -/
theorem run_keeps_master (filePath : Posix.Path) (mode : TransferMode) (options : TftpOptions)
    (multicastAddr : IpAddr) (multicastPort : UInt16) (maxClients : UInt64) (calls : List Call) :
    let s := (new filePath mode options multicastAddr multicastPort maxClients).run calls
    size s.clients ≤ maxClients.toNat ∧
      (s.masterClient = none ↔ size s.clients = 0) ∧
      (∀ m, s.masterClient = some m → m ∈ s.clients) ∧
      (∀ a c, s.clients.lookup a = some c → c.addr = a) ∧
      ∀ (order : Order SocketAddr ClientState) (timeoutSecs : UInt64) (now : Nat),
        let s' := s.removeInactiveClients order timeoutSecs now
        (∀ a, a ∈ s'.clients ↔
          ∃ c, s.clients.lookup a = some c ∧ now - c.lastSeen ≤ timeoutSecs.toNat * 10 ^ 9) ∧
        (∀ a c, s'.clients.lookup a = some c →
          ∃ c₀, s.clients.lookup a = some c₀ ∧ c = { c₀ with isMaster := c.isMaster }) ∧
        (s'.masterClient ≠ s.masterClient → ∃ m, s.masterClient = some m ∧ m ∉ s'.clients) ∧
        (∀ m, s'.masterClient = some m → m ∈ s'.clients) := by
  intro s
  have hs : s.Sound := (new_sound _ _ _ _ _ _).run
  have hmax : s.maxClients = maxClients := maxClients_run calls _
  refine ⟨hmax ▸ hs.bound, hs.master_eq_none_iff, hs.master_mem, hs.key, ?_⟩
  intro order timeoutSecs now s'
  have hs' : s'.Sound := hs.removeClients
  refine ⟨fun a => hs.mem_removeInactiveClients, fun a c hc => lookup_removeClients hc, ?_,
    hs'.master_mem⟩
  intro hchanged
  by_contra hkept
  push Not at hkept
  refine hchanged (masterClient_removeClients fun m hm hgone => ?_)
  exact (mem_removeClients.mp (hkept m hm)).1 hgone

/-! ## Asking again -/

/-- The client flagged as the master is the one that the session names. -/
def FlagsMaster (s : MulticastSession) : Prop :=
  ∀ a c, s.clients.lookup a = some c → (c.isMaster = true ↔ s.masterClient = some a)

/-- A member that asks again is answered as what it is, and nothing about it changes. -/
def RejoinIdempotent (s : MulticastSession) (addr : SocketAddr) (c : ClientState) (now : Nat) :
    Prop :=
  ∃ s' b, s.addClient addr now = .ok (s', b) ∧
    (b = true ↔ s.masterClient = some addr) ∧
    (∃ c', s'.clients.lookup addr = some c' ∧ c'.isMaster = c.isMaster ∧
      ∀ n, n ∈ c'.ackedBlocks ↔ n ∈ c.ackedBlocks) ∧
    (s.FlagsMaster → s'.FlagsMaster)

/-- **A member that asks again is taken for a new one.** It keeps its place just if the session
has room for one more client, it is not the master, and it has acknowledged nothing yet. -/
theorem rejoinIdempotent_iff {s : MulticastSession} (hs : s.Reachable) {addr : SocketAddr}
    {c : ClientState} (hc : s.clients.lookup addr = some c) (now : Nat) :
    s.RejoinIdempotent addr c now ↔
      size s.clients < s.maxClients.toNat ∧ s.masterClient ≠ some addr ∧
        ∀ n, n ∉ c.ackedBlocks := by
  have hpos := size_pos_of_mem (mem_iff_lookup.mpr ⟨c, hc⟩)
  constructor
  · rintro ⟨s', b, hok, hb, ⟨c', hc', -, hacked⟩, -⟩
    obtain ⟨hroom, hfirst, rfl⟩ := addClient_eq_ok.mp hok
    -- the session has a client, so nobody is told to be its master
    have hfalse : b = false := by
      rw [hfirst, decide_eq_false_iff_not]
      omega
    subst hfalse
    rw [AList.lookup_insert] at hc'
    cases hc'
    refine ⟨hroom, fun hm => Bool.false_ne_true (hb.mpr hm), fun n hn => ?_⟩
    have := (hacked n).mpr hn
    simp [ClientState.new] at this
  · rintro ⟨hroom, hm, hacked⟩
    have hrole : c.isMaster = false := by
      rw [← Bool.not_eq_true]
      exact fun hflag => hm (hs.sound.flag addr c hc hflag)
    have hfirst : false = decide (size s.clients = 0) := by
      rw [eq_comm, decide_eq_false_iff_not]
      omega
    refine ⟨_, false, addClient_eq_ok.mpr ⟨hroom, hfirst, rfl⟩, by simp [hm],
      ⟨_, AList.lookup_insert _, hrole.symm, fun n => ?_⟩, fun hflags a c' hc' => ?_⟩
    · simp [ClientState.new, hacked n]
    · simp only [lookup_insert_eq] at hc'
      split_ifs at hc' with ha
      · cases hc'
        simp [ClientState.new, ha, hm]
      · exact hflags a c' hc'

/-- The session of one file after the clients `1, …, n` have joined, at time `0`. -/
def joined (n : Nat) : MulticastSession :=
  (new (Posix.Path.ofString "/srv/tftp/a") .octet {} (.v4 0xe0000101) 1758 10).run
    ((List.range n).map fun i => .addClient ⟨.v4 (BitVec.ofNat 32 (i + 1)), 2000⟩ 0)

theorem joined_reachable (n : Nat) : (joined n).Reachable := .run _ _ _ _ _ _ _

/-- The second client of a session asks again before it has acknowledged anything. -/
theorem rejoinIdempotent_second :
    let addr : SocketAddr := ⟨.v4 2, 2000⟩
    (joined 2).clients.lookup addr = some (.new addr false 0) ∧
      (joined 2).RejoinIdempotent addr (.new addr false 0) 1 := by
  intro addr
  have hc : (joined 2).clients.lookup addr = some (.new addr false 0) := rfl
  refine ⟨hc, (rejoinIdempotent_iff (joined_reachable 2) hc 1).mpr ⟨by decide +kernel,
    by decide +kernel, fun n => ?_⟩⟩
  simp [ClientState.new]

/-- The only client of a session, its master, repeats its request: it is told that it is not
the master, and is no longer flagged as the master. -/
theorem rejoin_of_master_not_idempotent :
    let addr : SocketAddr := ⟨.v4 1, 2000⟩
    (joined 1).Reachable ∧ (joined 1).clients.lookup addr = some (.new addr true 0) ∧
      (joined 1).FlagsMaster ∧ ¬(joined 1).RejoinIdempotent addr (.new addr true 0) 1 := by
  intro addr
  have hc : (joined 1).clients.lookup addr = some (.new addr true 0) := rfl
  have hm : (joined 1).masterClient = some addr := by decide +kernel
  have hsize : size (joined 1).clients = 1 := by decide +kernel
  refine ⟨joined_reachable 1, hc, fun a c ha => ?_, ?_⟩
  · have hone : (joined 1).clients.entries = [⟨addr, .new addr true 0⟩] := rfl
    have hmem := AList.mem_lookup_iff.mp ha
    rw [hone, List.mem_singleton] at hmem
    cases hmem
    exact ⟨fun _ => hm, fun _ => rfl⟩
  · rintro ⟨s', b, hok, hb, -⟩
    have hfirst := (addClient_eq_ok.mp hok).2.1
    rw [hsize] at hfirst
    exact Bool.false_ne_true (hfirst.symm.trans (hb.mpr hm))

end MulticastSession

end UsgTftp
